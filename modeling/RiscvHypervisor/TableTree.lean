import RiscvHypervisor.PageTable

/-!
The tree of tables that a root stands for.  A table is named by its level and
by the address bits that select it; the entries of the upper levels refer to
tables that nobody else refers to.
-/

namespace RiscvHypervisor.TableTree

open RiscvHypervisor.EffectProgram
open RiscvHypervisor.MachineTypes
open RiscvHypervisor.OwnedMemory
open RiscvHypervisor.KernelMemory
open RiscvHypervisor.PageTable

/-- The table of a level and a key, where there is one. -/
abbrev Tables := Nat → Nat → Option Uint64

def Tables.set (T : Tables) (level key : Nat) (page : Uint64) : Tables :=
  fun level' key' => if level' = level ∧ key' = key then some page else T level' key'

theorem Tables.set_self (T : Tables) (level key : Nat) (page : Uint64) :
    T.set level key page level key = some page := by
  simp [Tables.set]

theorem Tables.set_of_ne {T : Tables} {level key level' key' : Nat} (page : Uint64)
    (h : ¬ (level' = level ∧ key' = key)) : T.set level key page level' key' = T level' key' := by
  simp [Tables.set, h]

/-- An entry of an upper level and the table it stands for. -/
def RefersTo (entry : Uint64) : Option Uint64 → Prop
  | none => entry &&& pteV = 0
  | some page => entry = link page

section Trees

variable (dynamic : DynamicSymbol) (x4 : Int) (root : Uint64) (home : Set Uint64)

/-- The share holds the root and its tables, each entry of an upper level
refers to its own table, the tables lie apart, and a leaf is valid or zero. -/
structure TreeInv (T : Tables) (l : Share Uint64) : Prop where
  root_iff : ∀ key page, T 2 key = some page ↔ key = 0 ∧ page = root
  root_bound : root.toNat + 8 * tableEntries x4 2 ≤ 2 ^ 64
  root_owned : ∀ a ∈ words root (tableEntries x4 2), l.Owns (kernelLayout dynamic) home a
  root_scratch : Disjoint (words root (tableEntries x4 2)) (words 0 512)
  valid : ∀ level < 2, ∀ key page, T level key = some page → validAddress dynamic page
  held : ∀ level < 2, ∀ key page, T level key = some page → page ∈ l.blocks
  closed : ∀ key, T 1 key = none → ∀ i < 512, T 0 (512 * key + i) = none
  entry : ∀ level < 2, ∀ key page, T (level + 1) key = some page → ∀ i : Uint64,
    i.toNat < tableEntries x4 (level + 1) →
    RefersTo (l.view (slot page i)) (T level (512 * key + i.toNat))
  apart : ∀ level ≤ 2, ∀ level' ≤ 2, ∀ key key' page page', T level key = some page →
    T level' key' = some page' → ¬ (level = level' ∧ key = key') →
    Disjoint (words page (tableEntries x4 level)) (words page' (tableEntries x4 level'))
  leaf : ∀ key page, T 0 key = some page → ∀ i : Uint64, i.toNat < 512 →
    l.view (slot page i) = 0 ∨ l.view (slot page i) &&& pteV ≠ 0

/-- Tables and pages have been added; the new tables were not held before. -/
structure Grows (T : Tables) (l : Share Uint64) (T' : Tables) (l' : Share Uint64) : Prop where
  tables : ∀ level key page, T level key = some page → T' level key = some page
  blocks : ∀ page ∈ l.blocks, page ∈ l'.blocks
  fresh : ∀ level < 2, ∀ key page, T level key = none → T' level key = some page →
    page ∉ l.blocks

/-- The tables that have been added are empty, and the leaves are as before. -/
structure Extends (T : Tables) (l : Share Uint64) (T' : Tables) (l' : Share Uint64) : Prop
    extends Grows T l T' l' where
  leaves : ∀ key page, T 0 key = some page → ∀ i : Uint64, i.toNat < 512 →
    l'.view (slot page i) = l.view (slot page i)
  empty : ∀ key page, T 0 key = none → T' 0 key = some page → ∀ i : Uint64, i.toNat < 512 →
    l'.view (slot page i) = 0

end Trees

theorem Grows.trans {T T' T'' : Tables} {l l' l'' : Share Uint64} (h : Grows T l T' l')
    (h' : Grows T' l' T'' l'') : Grows T l T'' l'' where
  tables level key page hpage := h'.tables level key page (h.tables level key page hpage)
  blocks page hpage := h'.blocks page (h.blocks page hpage)
  fresh level hlevel key page hnone hsome := by
    cases hmid : T' level key with
    | none => exact fun hmem => h'.fresh level hlevel key page hmid hsome (h.blocks page hmem)
    | some mid =>
        obtain rfl : mid = page :=
          Option.some.inj ((h'.tables level key mid hmid).symm.trans hsome)
        exact h.fresh level hlevel key mid hnone hmid

theorem Extends.refl (T : Tables) (l : Share Uint64) : Extends T l T l where
  tables _ _ _ h := h
  blocks _ h := h
  fresh _ _ _ _ hnone hsome := by simp [hnone] at hsome
  leaves _ _ _ _ _ := rfl
  empty _ _ hnone hsome := by simp [hnone] at hsome

theorem Extends.trans {T T' T'' : Tables} {l l' l'' : Share Uint64} (h : Extends T l T' l')
    (h' : Extends T' l' T'' l'') : Extends T l T'' l'' where
  toGrows := h.toGrows.trans h'.toGrows
  leaves key page hpage i hi :=
    (h'.leaves key page (h.tables 0 key page hpage) i hi).trans (h.leaves key page hpage i hi)
  empty key page hnone hsome i hi := by
    cases hmid : T' 0 key with
    | none => exact h'.empty key page hmid hsome i hi
    | some mid =>
        obtain rfl : mid = page := Option.some.inj ((h'.tables 0 key mid hmid).symm.trans hsome)
        rw [h'.leaves key mid hmid i hi]
        exact h.empty key mid hnone hmid i hi

/-- The page is not one of the tables below the root. -/
def NotTable (T : Tables) (page : Uint64) : Prop := ∀ level < 2, ∀ key, T level key ≠ some page

/-- A page that is held and no table does not become one. -/
theorem Grows.notTable {T T' : Tables} {l l' : Share Uint64} (h : Grows T l T' l')
    {page : Uint64} (hheld : page ∈ l.blocks) (hpage : NotTable T page) : NotTable T' page := by
  intro level hlevel key hsome
  cases hold : T level key with
  | none => exact h.fresh level hlevel key page hold hsome hheld
  | some old =>
      obtain rfl : old = page := Option.some.inj ((h.tables level key old hold).symm.trans hsome)
      exact hpage level hlevel key hold

namespace TreeInv

variable {dynamic : DynamicSymbol} {x4 : Int} {root : Uint64} {home : Set Uint64}
  {T : Tables} {l : Share Uint64}

theorem tableEntries_of_lt {level : Nat} (hlevel : level < 2) : tableEntries x4 level = 512 := by
  rw [tableEntries, if_neg (by omega)]

theorem owns (h : TreeInv dynamic x4 root home T l) {level key : Nat} {page : Uint64}
    (hlevel : level ≤ 2) (hpage : T level key = some page) {a : Uint64}
    (ha : a ∈ words page (tableEntries x4 level)) : l.Owns (kernelLayout dynamic) home a := by
  rcases Nat.lt_or_eq_of_le hlevel with hlt | rfl
  · rw [tableEntries_of_lt hlt] at ha
    exact .inr ⟨page, h.held level hlt key page hpage, ha⟩
  · obtain ⟨-, rfl⟩ := (h.root_iff key page).mp hpage
    exact h.root_owned a ha

theorem bound (h : TreeInv dynamic x4 root home T l) {level key : Nat} {page : Uint64}
    (hlevel : level ≤ 2) (hpage : T level key = some page) :
    page.toNat + 8 * tableEntries x4 level ≤ 2 ^ 64 := by
  rcases Nat.lt_or_eq_of_le hlevel with hlt | rfl
  · have hvalid := h.valid level hlt key page hpage
    rw [validAddress_iff] at hvalid
    rw [tableEntries_of_lt hlt]
    omega
  · obtain ⟨-, rfl⟩ := (h.root_iff key page).mp hpage
    exact h.root_bound

/-- No table lies in the null page. -/
theorem notMem_scratch (h : TreeInv dynamic x4 root home T l) {level key : Nat} {page : Uint64}
    (hlevel : level ≤ 2) (hpage : T level key = some page) {a : Uint64}
    (ha : a ∈ words page (tableEntries x4 level)) : a ∉ words 0 512 := by
  rcases Nat.lt_or_eq_of_le hlevel with hlt | rfl
  · rw [tableEntries_of_lt hlt] at ha
    have hvalid := h.valid level hlt key page hpage
    have happart := (kernelLayout dynamic).disjoint_scratch page hvalid
    exact Set.disjoint_left.mp (happart.mono_right words_zero_subset) ha
  · obtain ⟨-, rfl⟩ := (h.root_iff key page).mp hpage
    exact Set.disjoint_left.mp h.root_scratch ha

/-- A slot belongs to one place of one table. -/
theorem slot_unique (h : TreeInv dynamic x4 root home T l) {level level' key key' : Nat}
    {page page' i i' : Uint64} (hlevel : level ≤ 2) (hlevel' : level' ≤ 2)
    (hpage : T level key = some page) (hpage' : T level' key' = some page')
    (hi : i.toNat < tableEntries x4 level) (hi' : i'.toNat < tableEntries x4 level')
    (heq : slot page i = slot page' i') : level = level' ∧ key = key' ∧ i = i' := by
  by_cases hsame : level = level' ∧ key = key'
  · obtain ⟨rfl, rfl⟩ := hsame
    obtain rfl : page = page' := Option.some.inj (hpage.symm.trans hpage')
    exact ⟨rfl, rfl, slot_injective (h.bound hlevel hpage) hi hi' heq⟩
  · have hdisjoint := h.apart level hlevel level' hlevel' key key' page page' hpage hpage' hsame
    exact absurd (heq ▸ slot_mem_words hi') (Set.disjoint_left.mp hdisjoint (slot_mem_words hi))

/-- A table has one parent. -/
theorem parent_unique (h : TreeInv dynamic x4 root home T l) {level key key' i i' : Nat}
    {page page' : Uint64} (hlevel : level < 2) (hpage : T (level + 1) key = some page)
    (hpage' : T (level + 1) key' = some page') (hi : i < tableEntries x4 (level + 1))
    (hi' : i' < tableEntries x4 (level + 1)) (heq : 512 * key + i = 512 * key' + i') :
    key = key' ∧ i = i' := by
  rcases Nat.lt_or_eq_of_le hlevel with hlt | hroot
  · rw [tableEntries_of_lt hlt] at hi hi'
    omega
  · obtain rfl : level = 1 := by omega
    obtain ⟨rfl, -⟩ := (h.root_iff key page).mp hpage
    obtain ⟨rfl, -⟩ := (h.root_iff key' page').mp hpage'
    omega

end TreeInv

section Growth

variable {dynamic : DynamicSymbol} {x4 : Int} {root : Uint64} {home : Set Uint64}
  {T : Tables} {l : Share Uint64}

/-- The share after a new empty table has been entered into a slot. -/
noncomputable def attach (dynamic : DynamicSymbol) (l : Share Uint64) (pte page : Uint64) :
    Share Uint64 :=
  (l.grant (kernelLayout dynamic) page fun _ => 0).write pte (link page)

theorem attach_blocks (l : Share Uint64) (pte page : Uint64) :
    (attach dynamic l pte page).blocks = page :: l.blocks := rfl

theorem attach_owns {l : Share Uint64} {a : Uint64} (pte page : Uint64)
    (ha : l.Owns (kernelLayout dynamic) home a) :
    (attach dynamic l pte page).Owns (kernelLayout dynamic) home a := by
  rcases ha with ha | ⟨q, hq, ha⟩
  · exact .inl ha
  · exact .inr ⟨q, by simp [attach_blocks, hq], ha⟩

theorem attach_view_self (l : Share Uint64) (pte page : Uint64) :
    (attach dynamic l pte page).view pte = link page := by
  simp [attach, Share.write]

theorem attach_view_of_owns {l : Share Uint64} {pte page a : Uint64}
    (hfresh : ∀ a ∈ words page 512, ¬ l.Owns (kernelLayout dynamic) home a)
    (ha : l.Owns (kernelLayout dynamic) home a) (hne : a ≠ pte) :
    (attach dynamic l pte page).view a = l.view a := by
  have hout : a ∉ (kernelLayout dynamic).block page := fun hin => hfresh a hin ha
  simp [attach, Share.write, Share.grant, hne, hout]

theorem attach_view_new {l : Share Uint64} {pte page a : Uint64}
    (hfresh : ∀ a ∈ words page 512, ¬ l.Owns (kernelLayout dynamic) home a)
    (hpte : l.Owns (kernelLayout dynamic) home pte) (ha : a ∈ words page 512) :
    (attach dynamic l pte page).view a = 0 := by
  have hne : a ≠ pte := by
    rintro rfl
    exact hfresh a ha hpte
  have hin : a ∈ (kernelLayout dynamic).block page := ha
  simp [attach, Share.write, Share.grant, hne, hin]

/-- An empty slot of an upper table and a page that can be attached there. -/
structure Attachable (dynamic : DynamicSymbol) (x4 : Int) (home : Set Uint64) (T : Tables)
    (l : Share Uint64) (level key : Nat) (kpa i page : Uint64) : Prop where
  level_lt : level < 2
  table : T (level + 1) key = some kpa
  index_lt : i.toNat < tableEntries x4 (level + 1)
  vacant : T level (512 * key + i.toNat) = none
  valid : validAddress dynamic page
  fresh : ∀ a ∈ words page 512, ¬ l.Owns (kernelLayout dynamic) home a

namespace Attachable

variable {level key : Nat} {kpa i page : Uint64}

theorem owns (hat : Attachable dynamic x4 home T l level key kpa i page)
    (h : TreeInv dynamic x4 root home T l) : l.Owns (kernelLayout dynamic) home (slot kpa i) :=
  h.owns (by have := hat.level_lt; omega) hat.table (slot_mem_words hat.index_lt)

theorem notMem_blocks (hat : Attachable dynamic x4 home T l level key kpa i page) :
    page ∉ l.blocks := by
  intro hmem
  have hself := (kernelLayout dynamic).mem_block page hat.valid
  exact hat.fresh page hself (.inr ⟨page, hmem, hself⟩)

/-- A table after the attachment is the new one or an old one. -/
theorem set_cases {level' key' : Nat} {page' : Uint64}
    (h : T.set level (512 * key + i.toNat) page level' key' = some page') :
    (level' = level ∧ key' = 512 * key + i.toNat ∧ page' = page) ∨ T level' key' = some page' := by
  by_cases hnew : level' = level ∧ key' = 512 * key + i.toNat
  · obtain ⟨rfl, rfl⟩ := hnew
    rw [Tables.set_self] at h
    exact .inl ⟨rfl, rfl, (Option.some.inj h).symm⟩
  · rw [Tables.set_of_ne page hnew] at h
    exact .inr h

theorem entry (hat : Attachable dynamic x4 home T l level key kpa i page)
    (h : TreeInv dynamic x4 root home T l) {level' key' : Nat} {page' j : Uint64}
    (hlevel' : level' < 2)
    (hpage' : T.set level (512 * key + i.toNat) page (level' + 1) key' = some page')
    (hj : j.toNat < tableEntries x4 (level' + 1)) :
    RefersTo ((attach dynamic l (slot kpa i) page).view (slot page' j))
      (T.set level (512 * key + i.toNat) page level' (512 * key' + j.toNat)) := by
  have hpte := hat.owns h
  obtain ⟨hlevel, htable, hi, hvacant, -, hfresh⟩ := hat
  rcases set_cases hpage' with ⟨hup, rfl, rfl⟩ | hold
  · -- the new table is empty and has no tables below it
    obtain ⟨rfl, rfl⟩ : level' = 0 ∧ level = 1 := by omega
    have hbelow : T 0 (512 * (512 * key + i.toNat) + j.toNat) = none :=
      h.closed _ hvacant j.toNat (by simpa [tableEntries] using hj)
    rw [Tables.set_of_ne _ (by omega), hbelow,
      attach_view_new hfresh hpte (slot_mem_words (by simpa [tableEntries] using hj))]
    exact BitVec.zero_and
  · have howns := h.owns (by omega) hold (slot_mem_words hj)
    by_cases hnew : level' = level ∧ 512 * key' + j.toNat = 512 * key + i.toNat
    · obtain ⟨rfl, hkey⟩ := hnew
      obtain ⟨rfl, hij⟩ := h.parent_unique hlevel hold htable hj hi hkey
      obtain rfl : page' = kpa := Option.some.inj (hold.symm.trans htable)
      obtain rfl : j = i := BitVec.eq_of_toNat_eq hij
      rw [Tables.set_self, attach_view_self]
      rfl
    · have hne : slot page' j ≠ slot kpa i := by
        intro heq
        obtain ⟨hl, rfl, rfl⟩ :=
          h.slot_unique (by omega) (by omega) hold htable hj hi heq
        exact hnew ⟨by omega, rfl⟩
      rw [Tables.set_of_ne _ hnew, attach_view_of_owns hfresh howns hne]
      exact h.entry level' hlevel' key' page' hold j hj

theorem apart (hat : Attachable dynamic x4 home T l level key kpa i page)
    (h : TreeInv dynamic x4 root home T l) {level' key' : Nat} {page' : Uint64}
    (hlevel' : level' ≤ 2) (hpage' : T level' key' = some page') :
    Disjoint (words page (tableEntries x4 level)) (words page' (tableEntries x4 level')) := by
  rw [TreeInv.tableEntries_of_lt hat.level_lt, Set.disjoint_left]
  exact fun a ha ha' => hat.fresh a ha (h.owns hlevel' hpage' ha')

/-- The attachment does not touch the last-level tables. -/
theorem view_leaf (hat : Attachable dynamic x4 home T l level key kpa i page)
    (h : TreeInv dynamic x4 root home T l) {key' : Nat} {page' j : Uint64}
    (hpage' : T 0 key' = some page') (hj : j.toNat < 512) :
    (attach dynamic l (slot kpa i) page).view (slot page' j) = l.view (slot page' j) := by
  have hsize : j.toNat < tableEntries x4 0 := by rwa [TreeInv.tableEntries_of_lt (by decide)]
  have hlevel := hat.level_lt
  refine attach_view_of_owns hat.fresh (h.owns (by omega) hpage' (slot_mem_words hsize)) ?_
  intro heq
  have hsame := h.slot_unique (by omega) (by omega) hpage' hat.table hsize hat.index_lt heq
  omega

/-- Entering a fresh table keeps the tree. -/
theorem treeInv (hat : Attachable dynamic x4 home T l level key kpa i page)
    (h : TreeInv dynamic x4 root home T l) :
    TreeInv dynamic x4 root home (T.set level (512 * key + i.toNat) page)
      (attach dynamic l (slot kpa i) page) where
  root_iff key' page' := by
    have hlevel := hat.level_lt
    rw [Tables.set_of_ne page (by omega)]
    exact h.root_iff key' page'
  root_bound := h.root_bound
  root_owned a ha := attach_owns _ _ (h.root_owned a ha)
  root_scratch := h.root_scratch
  valid level' hlevel' key' page' hpage' := by
    rcases set_cases hpage' with ⟨-, -, rfl⟩ | hold
    · exact hat.valid
    · exact h.valid level' hlevel' key' page' hold
  held level' hlevel' key' page' hpage' := by
    rw [attach_blocks]
    rcases set_cases hpage' with ⟨-, -, rfl⟩ | hold
    · simp
    · exact List.mem_cons_of_mem _ (h.held level' hlevel' key' page' hold)
  closed key' hnone j hj := by
    have hlevel := hat.level_lt
    by_cases hnew : 1 = level ∧ key' = 512 * key + i.toNat
    · obtain ⟨rfl, rfl⟩ := hnew
      rw [Tables.set_self] at hnone
      cases hnone
    · rw [Tables.set_of_ne page hnew] at hnone
      have hbelow := h.closed key' hnone j hj
      by_cases hzero : 0 = level ∧ 512 * key' + j = 512 * key + i.toNat
      · obtain ⟨rfl, hkey⟩ := hzero
        have hi := hat.index_lt
        rw [TreeInv.tableEntries_of_lt (by decide)] at hi
        obtain rfl : key' = key := by omega
        exact absurd hat.table (by simp [hnone])
      · rw [Tables.set_of_ne page hzero, hbelow]
  entry level' hlevel' key' page' hpage' j hj := hat.entry h hlevel' hpage' hj
  apart level₁ hlevel₁ level₂ hlevel₂ key₁ key₂ page₁ page₂ hpage₁ hpage₂ hne := by
    rcases set_cases hpage₁ with ⟨rfl, rfl, rfl⟩ | hold₁
    · rcases set_cases hpage₂ with ⟨rfl, rfl, rfl⟩ | hold₂
      · exact absurd ⟨rfl, rfl⟩ hne
      · exact hat.apart h hlevel₂ hold₂
    · rcases set_cases hpage₂ with ⟨rfl, rfl, rfl⟩ | hold₂
      · exact (hat.apart h hlevel₁ hold₁).symm
      · exact h.apart level₁ hlevel₁ level₂ hlevel₂ key₁ key₂ page₁ page₂ hold₁ hold₂ hne
  leaf key' page' hpage' j hj := by
    rcases set_cases hpage' with ⟨-, -, rfl⟩ | hold
    · exact .inl (attach_view_new hat.fresh (hat.owns h) (slot_mem_words hj))
    · rw [hat.view_leaf h hold hj]
      exact h.leaf key' page' hold j hj

theorem extend (hat : Attachable dynamic x4 home T l level key kpa i page)
    (h : TreeInv dynamic x4 root home T l) :
    Extends T l (T.set level (512 * key + i.toNat) page) (attach dynamic l (slot kpa i) page) where
  tables level' key' page' hpage' := by
    rw [Tables.set_of_ne page ?_]
    · exact hpage'
    · rintro ⟨rfl, rfl⟩
      simp [hat.vacant] at hpage'
  blocks page' hpage' := by
    rw [attach_blocks]
    exact List.mem_cons_of_mem _ hpage'
  leaves key' page' hpage' j hj := hat.view_leaf h hpage' hj
  empty key' page' hnone hsome j hj := by
    rcases set_cases hsome with ⟨-, -, rfl⟩ | hold
    · exact attach_view_new hat.fresh (hat.owns h) (slot_mem_words hj)
    · simp [hnone] at hold
  fresh level' _ key' page' hnone hsome := by
    rcases set_cases hsome with ⟨-, -, rfl⟩ | hold
    · exact hat.notMem_blocks
    · simp [hnone] at hold

end Attachable

theorem clear_scratch_view (h : TreeInv dynamic x4 root home T l) {level key : Nat}
    {page : Uint64} (hlevel : level ≤ 2) (hpage : T level key = some page) {i : Uint64}
    (hi : i.toNat < tableEntries x4 level) :
    (l.clear (words 0 512)).view (slot page i) = l.view (slot page i) :=
  if_neg (h.notMem_scratch hlevel hpage (slot_mem_words hi))

/-- Clearing the null page does nothing to the tree. -/
theorem TreeInv.clear_scratch (h : TreeInv dynamic x4 root home T l) :
    TreeInv dynamic x4 root home T (l.clear (words 0 512)) where
  root_iff := h.root_iff
  root_bound := h.root_bound
  root_owned := h.root_owned
  root_scratch := h.root_scratch
  valid := h.valid
  held := h.held
  closed := h.closed
  entry level hlevel key page hpage i hi := by
    rw [clear_scratch_view h (by omega) hpage hi]
    exact h.entry level hlevel key page hpage i hi
  apart := h.apart
  leaf key page hpage i hi := by
    rw [clear_scratch_view h (by decide) hpage (by rwa [TreeInv.tableEntries_of_lt (by decide)])]
    exact h.leaf key page hpage i hi

theorem extends_clear_scratch (h : TreeInv dynamic x4 root home T l) :
    Extends T l T (l.clear (words 0 512)) where
  tables _ _ _ hpage := hpage
  blocks _ hpage := hpage
  leaves key page hpage i hi :=
    clear_scratch_view h (by decide) hpage (by rwa [TreeInv.tableEntries_of_lt (by decide)])
  empty _ _ hnone hsome := by simp [hnone] at hsome
  fresh _ _ _ _ hnone hsome := by simp [hnone] at hsome

end Growth

section Walking

variable {dynamic : DynamicSymbol} {fails : Prop} {x4 : Int} {root : Uint64} {home : Set Uint64}

/-- The key of the last table of a walk that is at a table of the given level. -/
def leafKey (va : Uint64) (x4 : Int) : Nat → Nat → Nat
  | 0, key => key
  | level + 1, key => leafKey va x4 level (512 * key + (va2idx va (level + 1) x4).toNat)

theorem leafKey_div (va : Uint64) (x4 : Int) {level : Nat} (hlevel : level < 2) (key : Nat) :
    leafKey va x4 level key / 512 ^ level = key := by
  cases level with
  | zero => simp [leafKey]
  | succ level =>
      obtain rfl : level = 0 := by omega
      have hidx := va2idx_lt va (show 0 + 1 ≤ 2 by decide) x4
      rw [TreeInv.tableEntries_of_lt (by decide)] at hidx
      rw [leafKey, leafKey]
      omega

/-- Below a missing table there is none. -/
theorem leafKey_none {T : Tables} {l : Share Uint64} (h : TreeInv dynamic x4 root home T l)
    (va : Uint64) {level key : Nat} (hlevel : level < 2) (hnone : T level key = none) :
    T 0 (leafKey va x4 level key) = none := by
  cases level with
  | zero => exact hnone
  | succ level =>
      obtain rfl : level = 0 := by omega
      have hidx := va2idx_lt va (show 0 + 1 ≤ 2 by decide) x4
      rw [TreeInv.tableEntries_of_lt (by decide)] at hidx
      exact h.closed key hnone _ hidx

/-- What a walk that may allocate does: a table that is there is found and
nothing else happens, one that is not is added with those above it. -/
structure Walked (fails : Prop) (va : Uint64) (x4 : Int) (level key : Nat) (T : Tables)
    (l : Share Uint64) (T' : Tables) (l' : Share Uint64) (pte : Uint64) : Prop
    extends Extends T l T' l' where
  unchanged : T 0 (leafKey va x4 level key) ≠ none → T' = T ∧ l' = l
  result : (∃ page, T' 0 (leafKey va x4 level key) = some page ∧ pte = slot page (va2idx va 0 x4)) ∨
    (fails ∧ pte = 0 ∧ T' 0 (leafKey va x4 level key) = none)
  held : ∀ page ∈ l'.blocks, page ∈ l.blocks ∨
    ∃ level' < level, T' level' (leafKey va x4 level key / 512 ^ level') = some page

/-- A walk that may allocate ends at the slot of the address in a last-level
table, unless an allocation fails. -/
theorem ensures_walkFrom {alloc : Int} (halloc : alloc ≠ 0) (va : Uint64) {level : Nat}
    (hlevel : level ≤ 2) {T : Tables} {l : Share Uint64} (h : TreeInv dynamic x4 root home T l)
    {key : Nat} {kpa : Uint64} (hkpa : T level key = some kpa) :
    Ensures (kernelLayout dynamic) fails home (walkFrom va alloc x4 level kpa) l fun pte l' =>
      ∃ T', TreeInv dynamic x4 root home T' l' ∧ Walked fails va x4 level key T l T' l' pte := by
  induction level generalizing key kpa T l with
  | zero =>
      exact ⟨T, h, Extends.refl T l, fun _ => ⟨rfl, rfl⟩, .inl ⟨kpa, hkpa, rfl⟩,
        fun _ hpage => .inl hpage⟩
  | succ level ih =>
      have hidx := va2idx_lt va hlevel x4
      have hpte := h.owns hlevel hkpa (slot_mem_words hidx)
      have hentry := h.entry level (by omega) key kpa hkpa _ hidx
      rw [walkFrom]
      refine ensures_load_bind hpte ?_
      cases hchild : T level (512 * key + (va2idx va (level + 1) x4).toNat) with
      | some page =>
          rw [hchild] at hentry
          rw [hentry, if_pos (link_and_pteV page),
            pa2kpa_pte2pa_link (h.valid level (by omega) _ page hchild)]
          refine (ih (by omega) h hchild).mono ?_
          rintro pte l' ⟨T', htree, hext, hsame, hend, hheld⟩
          refine ⟨T', htree, hext, hsame, hend, fun q hq => (hheld q hq).imp_right ?_⟩
          rintro ⟨level', hlt, htable⟩
          exact ⟨level', by omega, htable⟩
      | none =>
          have hnone := leafKey_none h va (by omega) hchild
          rw [hchild] at hentry
          have hinvalid : l.view (slot kpa (va2idx va (level + 1) x4)) &&& pteV = 0 := hentry
          rw [if_neg (not_not.mpr hinvalid), if_neg halloc]
          refine (ensures_kmalloc l).seq ?_
          rintro page l' (⟨hvalid, hfresh, rfl⟩ | ⟨hfails, rfl, rfl⟩)
          · have hat : Attachable dynamic x4 home T l level key kpa (va2idx va (level + 1) x4)
                page := ⟨by omega, hkpa, hidx, hchild, hvalid, hfresh⟩
            have hdiv := leafKey_div va x4 (show level < 2 by omega)
              (512 * key + (va2idx va (level + 1) x4).toNat)
            rw [if_neg (ne_zero_of_validAddress hvalid)]
            refine (ensures_memset (n := 512) (by decide) fun a ha =>
              .inl (.inr ⟨page, by simp [Share.grant], ha⟩)).seq ?_
            intro _ l' hl'
            obtain rfl := hl'.trans (l.clear_grant (kernelLayout dynamic) page fun _ => 0)
            refine ensures_store_bind
              (attach_owns (slot kpa (va2idx va (level + 1) x4)) page hpte) ?_
            refine (ih (by omega) (hat.treeInv h) (Tables.set_self T level _ page)).mono ?_
            rintro pte l' ⟨T', htree, hext, -, hend, hheld⟩
            refine ⟨T', htree, (hat.extend h).trans hext, fun hsome => absurd hnone hsome, hend,
              fun q hq => ?_⟩
            rcases hheld q hq with hq | ⟨level', hlt, htable⟩
            · rcases List.mem_cons.mp hq with rfl | hq
              · refine .inr ⟨level, by omega, ?_⟩
                rw [leafKey, hdiv]
                exact hext.tables level _ q (Tables.set_self T level _ q)
              · exact .inl hq
            · exact .inr ⟨level', by omega, htable⟩
          · rw [if_pos rfl]
            exact ⟨T, h.clear_scratch, extends_clear_scratch h, fun hsome => absurd hnone hsome,
              .inr ⟨hfails, rfl, hnone⟩, fun q hq => .inl hq⟩

/-- A walk that does not have to allocate finds the slot of the address, or
nothing. -/
theorem exec_walkFrom {T : Tables} {l : Share Uint64} {s : KernelMem}
    (h : TreeInv dynamic x4 root home T l)
    (hmem : ∀ a, l.Owns (kernelLayout dynamic) home a → s.mem a = l.view a) (va : Uint64)
    {alloc : Int} {level key : Nat} {page : Uint64} (hlevel : level ≤ 2)
    (hpage : T level key = some page) (halloc : alloc = 0 ∨ T 0 (leafKey va x4 level key) ≠ none) :
    exec heapHandler (walkFrom va alloc x4 level page) s =
      (.ok ((T 0 (leafKey va x4 level key)).elim 0 fun leaf => slot leaf (va2idx va 0 x4)), s) := by
  induction level generalizing key page with
  | zero =>
      rw [leafKey, hpage]
      rfl
  | succ level ih =>
      have hidx := va2idx_lt va hlevel x4
      have howns := h.owns hlevel hpage (slot_mem_words hidx)
      have hentry := h.entry level (by omega) key page hpage _ hidx
      rw [leafKey] at halloc
      rw [walkFrom, exec_load_bind, hmem _ howns, leafKey]
      cases hchild : T level (512 * key + (va2idx va (level + 1) x4).toNat) with
      | none =>
          have hnone := leafKey_none h va (by omega) hchild
          rw [hchild] at hentry
          have hinvalid : l.view (slot page (va2idx va (level + 1) x4)) &&& pteV = 0 := hentry
          rw [if_neg (not_not.mpr hinvalid), if_pos (halloc.resolve_right (not_not.mpr hnone)), hnone]
          rfl
      | some child =>
          rw [hchild] at hentry
          rw [hentry, if_pos (link_and_pteV child),
            pa2kpa_pte2pa_link (h.valid level (by omega) _ child hchild)]
          exact ih (by omega) hchild halloc

end Walking

section Empty

variable {dynamic : DynamicSymbol} {x4 : Int} {root : Uint64} {home : Set Uint64}

/-- The tree of an empty root. -/
def rootOnly (root : Uint64) : Tables :=
  fun level key => if level = 2 ∧ key = 0 then some root else none

theorem rootOnly_eq_some {level key : Nat} {page : Uint64} :
    rootOnly root level key = some page ↔ level = 2 ∧ key = 0 ∧ root = page := by
  simp [rootOnly, and_assoc]

theorem treeInv_rootOnly {l : Share Uint64}
    (hbound : root.toNat + 8 * tableEntries x4 2 ≤ 2 ^ 64)
    (howned : ∀ a ∈ words root (tableEntries x4 2), l.Owns (kernelLayout dynamic) home a)
    (hscratch : Disjoint (words root (tableEntries x4 2)) (words 0 512))
    (hzero : ∀ a ∈ words root (tableEntries x4 2), l.view a = 0) :
    TreeInv dynamic x4 root home (rootOnly root) l where
  root_iff key page := by
    rw [rootOnly_eq_some]
    exact ⟨fun ⟨_, hkey, hpage⟩ => ⟨hkey, hpage.symm⟩, fun ⟨hkey, hpage⟩ => ⟨rfl, hkey, hpage.symm⟩⟩
  root_bound := hbound
  root_owned := howned
  root_scratch := hscratch
  valid level hlevel key page hpage := by
    have hroot := (rootOnly_eq_some.mp hpage).1
    omega
  held level hlevel key page hpage := by
    have hroot := (rootOnly_eq_some.mp hpage).1
    omega
  closed key _ i _ := by simp [rootOnly]
  entry level hlevel key page hpage i hi := by
    obtain ⟨hlast, rfl, rfl⟩ := rootOnly_eq_some.mp hpage
    obtain rfl : level = 1 := by omega
    have hnone : rootOnly root 1 (512 * 0 + i.toNat) = none := by simp [rootOnly]
    rw [hnone, hzero _ (slot_mem_words hi)]
    exact BitVec.zero_and
  apart level _ level' _ key key' page page' hpage hpage' hne := by
    obtain ⟨rfl, rfl, -⟩ := rootOnly_eq_some.mp hpage
    obtain ⟨rfl, rfl, -⟩ := rootOnly_eq_some.mp hpage'
    exact absurd ⟨rfl, rfl⟩ hne
  leaf key page hpage := by
    have hroot := (rootOnly_eq_some.mp hpage).1
    omega

end Empty

end RiscvHypervisor.TableTree
