import RiscvHypervisor.EffectProgram
import Mathlib.Data.Set.Lattice
import Mathlib.Order.CompletePartialOrder
import Mathlib.Algebra.Order.BigOperators.Group.Finset

/-!
A word memory with an allocator of fixed blocks, shared by several programs.
The free blocks form a list threaded through their own first words.  A program
owns some words from the start and the blocks it has been given; what it does
to these can be followed without the other programs.
-/

namespace RiscvHypervisor.OwnedMemory

open RiscvHypervisor.EffectProgram
open RiscvHypervisor.TransitionSystem

section Heaps

variable {W : Type}

/-- An access to the memory or to the list of free blocks. -/
inductive HeapOp (W : Type)
  | load (p : W)
  | store (p v : W)
  | pop
  | push (p : W)

abbrev heapEffect (W : Type) : Effect where
  Op := HeapOp W
  Answer
    | .load _ => W
    | .store _ _ => Unit
    | .pop => W
    | .push _ => Unit

structure Heap (W : Type) where
  mem : W → W
  freelist : W

variable [DecidableEq W] [Zero W]

def heapHandler : Handler (heapEffect W) (Heap W)
  | .load p, s => (s.mem p, s)
  | .store p v, s => ((), { s with mem := Function.update s.mem p v })
  | .pop, s =>
      (s.freelist, if s.freelist = 0 then s else { s with freelist := s.mem s.freelist })
  | .push p, s => ((), { mem := Function.update s.mem p s.freelist, freelist := p })

omit [DecidableEq W] in
/-- The blocks met on the way from `head` to the null word. -/
def Linked (mem : W → W) : W → List W → Prop
  | head, [] => head = 0
  | head, p :: rest => head = p ∧ p ≠ 0 ∧ Linked mem (mem p) rest

omit [DecidableEq W] in
@[simp] theorem linked_nil (mem : W → W) (head : W) : Linked mem head [] ↔ head = 0 := Iff.rfl

omit [DecidableEq W] in
@[simp] theorem linked_cons (mem : W → W) (head p : W) (rest : List W) :
    Linked mem head (p :: rest) ↔ head = p ∧ p ≠ 0 ∧ Linked mem (mem p) rest := Iff.rfl

omit [DecidableEq W] in
theorem Linked.congr {mem mem' : W → W} {head : W} {free : List W}
    (h : Linked mem head free) (hmem : ∀ p ∈ free, mem' p = mem p) : Linked mem' head free := by
  induction free generalizing head with
  | nil => exact h
  | cons p rest ih =>
      obtain ⟨hhead, hne, hrest⟩ := h
      refine ⟨hhead, hne, ?_⟩
      rw [hmem p (by simp)]
      exact ih hrest fun q hq => hmem q (by simp [hq])

omit [DecidableEq W] in
theorem Linked.unique {mem : W → W} {head : W} {free free' : List W}
    (h : Linked mem head free) (h' : Linked mem head free') : free = free' := by
  induction free generalizing head free' with
  | nil =>
      cases free' with
      | nil => rfl
      | cons p rest => exact absurd (h'.1.symm.trans h) h'.2.1
  | cons p rest ih =>
      cases free' with
      | nil => exact absurd (h.1.symm.trans h') h.2.1
      | cons q rest' =>
          obtain rfl : p = q := h.1.symm.trans h'.1
          rw [ih h.2.2 h'.2.2]

end Heaps

/-- Where the blocks of a memory are.  `scratch` is memory that nobody reads, and
that is written only after an allocation has failed. -/
structure Layout (W : Type) [Zero W] where
  Valid : W → Prop
  block : W → Set W
  scratch : Set W
  mem_block : ∀ p, Valid p → p ∈ block p
  disjoint_block : ∀ p q, Valid p → Valid q → p ≠ q → Disjoint (block p) (block q)
  not_valid_zero : ¬ Valid 0
  disjoint_scratch : ∀ p, Valid p → Disjoint (block p) scratch

/-- What a program knows of the memory: the words it owns and its blocks. -/
structure Share (W : Type) where
  view : W → W
  blocks : List W

section Programs

variable {W : Type} [DecidableEq W] [Zero W] {α β : Type}

/-- The word is one of `home` or lies in a block of the share. -/
def Share.Owns (L : Layout W) (home : Set W) (l : Share W) (a : W) : Prop :=
  a ∈ home ∨ ∃ p ∈ l.blocks, a ∈ L.block p

def Share.write (l : Share W) (p v : W) : Share W :=
  { l with view := Function.update l.view p v }

/-- The share with one more block, whose words are those of `fresh`. -/
noncomputable def Share.grant (L : Layout W) (l : Share W) (p : W) (fresh : W → W) : Share W := by
  classical
  exact
    { view := fun a => if a ∈ L.block p then fresh a else l.view a
      blocks := p :: l.blocks }

/-- The share with the words of a set zeroed. -/
noncomputable def Share.clear (l : Share W) (words : Set W) : Share W := by
  classical
  exact { l with view := fun a => if a ∈ words then 0 else l.view a }

def Share.drop (l : Share W) (p : W) : Share W :=
  { l with blocks := l.blocks.filter (· ≠ p) }

omit [DecidableEq W] in
theorem Share.clear_empty (l : Share W) : l.clear ∅ = l := by
  simp [Share.clear]

omit [DecidableEq W] in
theorem Share.clear_grant (L : Layout W) (l : Share W) (p : W) (fresh : W → W) :
    (l.grant L p fresh).clear (L.block p) = l.grant L p fun _ => 0 := by
  simp only [Share.clear, Share.grant, Share.mk.injEq, and_true]
  funext a
  split <;> rfl

theorem Share.clear_write (l : Share W) (p : W) (words : Set W) :
    (l.write p 0).clear words = l.clear (insert p words) := by
  simp only [Share.clear, Share.write, Share.mk.injEq, and_true]
  funext a
  rcases eq_or_ne a p with ha | ha
  · simp [ha]
  · rw [Function.update_of_ne ha]
    congr 1
    simp [ha]

variable (L : Layout W) (fails : Prop) (home : Set W)

/-- Started with this share, the program reads and writes only what it owns
and `Q` holds of the result and the share when it returns.  A new block is any
valid one with no word in the share yet; the null word is an answer of the
allocator only where `fails` holds. -/
def Ensures : Program (heapEffect W) α → Share W → (α → Share W → Prop) → Prop
  | .done a, l, Q => Q a l
  | .panic _, _, _ => True
  | .access (.load p) k, l, Q => l.Owns L home p ∧ Ensures (k (l.view p)) l Q
  | .access (.store p v) k, l, Q =>
      (l.Owns L home p ∨ (fails ∧ p ∈ L.scratch)) ∧ Ensures (k ()) (l.write p v) Q
  | .access .pop k, l, Q =>
      (∀ p fresh, L.Valid p → (∀ a ∈ L.block p, ¬ l.Owns L home a) →
          Ensures (k p) (l.grant L p fresh) Q) ∧
        (fails → Ensures (k 0) l Q)
  | .access (.push p) k, l, Q => p ∈ l.blocks ∧ Ensures (k ()) (l.drop p) Q

variable {L fails home}

theorem Ensures.mono {p : Program (heapEffect W) α} {l : Share W} {Q Q' : α → Share W → Prop}
    (h : Ensures L fails home p l Q) (hQ : ∀ a l, Q a l → Q' a l) :
    Ensures L fails home p l Q' := by
  induction p generalizing l with
  | done a => exact hQ a l h
  | panic message => trivial
  | access o k ih =>
      cases o with
      | load p => exact ⟨h.1, ih _ h.2⟩
      | store p v => exact ⟨h.1, ih _ h.2⟩
      | pop =>
          exact ⟨fun p fresh hp hnew => ih _ (h.1 p fresh hp hnew), fun hf => ih _ (h.2 hf)⟩
      | push p => exact ⟨h.1, ih _ h.2⟩

theorem Ensures.bind {p : Program (heapEffect W) α} {f : α → Program (heapEffect W) β}
    {l : Share W} {Q : β → Share W → Prop}
    (h : Ensures L fails home p l fun a l' => Ensures L fails home (f a) l' Q) :
    Ensures L fails home (p >>= f) l Q := by
  induction p generalizing l with
  | done a => exact h
  | panic message => trivial
  | access o k ih =>
      cases o with
      | load p => exact ⟨h.1, ih _ h.2⟩
      | store p v => exact ⟨h.1, ih _ h.2⟩
      | pop =>
          exact ⟨fun p fresh hp hnew => ih _ (h.1 p fresh hp hnew), fun hf => ih _ (h.2 hf)⟩
      | push p => exact ⟨h.1, ih _ h.2⟩

/-- The rule for a sequence whose first part has a specification. -/
theorem Ensures.seq {p : Program (heapEffect W) α} {f : α → Program (heapEffect W) β}
    {l : Share W} {Q : α → Share W → Prop} {R : β → Share W → Prop}
    (h : Ensures L fails home p l Q)
    (hf : ∀ a l', Q a l' → Ensures L fails home (f a) l' R) :
    Ensures L fails home (p >>= f) l R :=
  (h.mono hf).bind

theorem Ensures.of_attempt {p : Program (heapEffect W) α} {l : Share W}
    {Q : Except String α → Share W → Prop} (h : Ensures L fails home p.attempt l Q) :
    Ensures L fails home p l fun a => Q (.ok a) := by
  induction p generalizing l with
  | done a => exact h
  | panic message => trivial
  | access o k ih =>
      cases o with
      | load p => exact ⟨h.1, ih _ h.2⟩
      | store p v => exact ⟨h.1, ih _ h.2⟩
      | pop =>
          exact ⟨fun p fresh hp hnew => ih _ (h.1 p fresh hp hnew), fun hf => ih _ (h.2 hf)⟩
      | push p => exact ⟨h.1, ih _ h.2⟩

/-- The rule for a sequence in which the first part may panic. -/
theorem Ensures.seq_attempt {p : Program (heapEffect W) α} {f : α → Program (heapEffect W) β}
    {l : Share W} {Q : Except String α → Share W → Prop} {R : Except String β → Share W → Prop}
    (h : Ensures L fails home p.attempt l Q)
    (hok : ∀ a l', Q (.ok a) l' → Ensures L fails home (f a).attempt l' R)
    (herror : ∀ message l', Q (.error message) l' → R (.error message) l') :
    Ensures L fails home (p >>= f).attempt l R := by
  rw [Program.attempt_bind]
  refine h.seq ?_
  rintro (message | a) l' hQ
  · exact herror message l' hQ
  · exact hok a l' hQ

end Programs

section Exhaustion

variable {W : Type} [DecidableEq W] [Zero W] {α : Type}

/-- Some allocation of the program finds the free list empty. -/
def Exhausts (p : Program (heapEffect W) α) (s : Heap W) : Prop :=
  ∃ x ∈ accesses heapHandler p s, x.2 = .pop ∧ x.1.freelist = 0

/-- The block is an answer of the allocator to the program. -/
def Answered (p : Program (heapEffect W) α) (s : Heap W) (q : W) : Prop :=
  ∃ x ∈ accesses heapHandler p s, x.2 = .pop ∧ x.1.freelist = q

theorem exhausts_bind_ok {β : Type} {p : Program (heapEffect W) α}
    {f : α → Program (heapEffect W) β} {s s' : Heap W} {a : α}
    (h : exec heapHandler p s = (.ok a, s')) :
    Exhausts (p >>= f) s ↔ Exhausts p s ∨ Exhausts (f a) s' := by
  simp only [Exhausts, accesses_bind_ok heapHandler h, List.mem_append]
  constructor
  · rintro ⟨x, hx | hx, hpop⟩
    · exact .inl ⟨x, hx, hpop⟩
    · exact .inr ⟨x, hx, hpop⟩
  · rintro (⟨x, hx, hpop⟩ | ⟨x, hx, hpop⟩)
    · exact ⟨x, .inl hx, hpop⟩
    · exact ⟨x, .inr hx, hpop⟩

theorem Answered.bind {β : Type} {p : Program (heapEffect W) α} {s s' : Heap W} {a : α} {q : W}
    (h : Answered p s q) (hexec : exec heapHandler p s = (.ok a, s'))
    (f : α → Program (heapEffect W) β) : Answered (p >>= f) s q := by
  obtain ⟨x, hx, hpop⟩ := h
  refine ⟨x, ?_, hpop⟩
  rw [accesses_bind_ok heapHandler hexec]
  exact List.mem_append_left _ hx

theorem exhausts_bind_error {β : Type} {p : Program (heapEffect W) α}
    {f : α → Program (heapEffect W) β} {s s' : Heap W} {message : String}
    (h : exec heapHandler p s = (.error message, s')) : Exhausts (p >>= f) s ↔ Exhausts p s := by
  simp only [Exhausts, accesses_bind_error heapHandler h]

def NoPush : HeapOp W → Prop
  | .push _ => False
  | _ => True

@[simp] theorem not_exhausts_done (a : α) (s : Heap W) :
    ¬ Exhausts (.done a : Program (heapEffect W) α) s := by
  rintro ⟨x, hx, -⟩
  cases hx

def NoPop : HeapOp W → Prop
  | .pop => False
  | _ => True

theorem not_exhausts_of_noPop {p : Program (heapEffect W) α} (hp : p.Uses NoPop) (s : Heap W) :
    ¬ Exhausts p s := by
  induction p generalizing s with
  | done a => exact not_exhausts_done a s
  | panic message =>
      rintro ⟨x, hx, -⟩
      cases hx
  | access o k ih =>
      rintro ⟨x, hx, hpop, hzero⟩
      rcases List.mem_cons.mp hx with rfl | hx
      · obtain rfl : o = .pop := hpop
        exact hp.1
      · exact ih _ (hp.2 _) _ ⟨x, hx, hpop, hzero⟩

theorem freelist_of_noPush {o : HeapOp W} (ho : NoPush o) {s : Heap W} (h : s.freelist = 0) :
    (heapHandler o s).2.freelist = 0 := by
  cases o with
  | load p => exact h
  | store p v => exact h
  | pop => simp [heapHandler, h]
  | push p => exact ho.elim

/-- Where nothing is given back, an empty free list stays empty. -/
theorem freelist_of_exhausts {p : Program (heapEffect W) α} (hp : p.Uses NoPush) {s : Heap W}
    (h : Exhausts p s) : (exec heapHandler p s).2.freelist = 0 := by
  induction p generalizing s with
  | done a => exact absurd h (not_exhausts_done a s)
  | panic message =>
      obtain ⟨x, hx, -⟩ := h
      cases hx
  | access o k ih =>
      obtain ⟨x, hx, hpop⟩ := h
      rcases List.mem_cons.mp hx with rfl | hrest
      · exact exec_invariant (fun t : Heap W => t.freelist = 0) (fun _ _ ho => freelist_of_noPush ho)
          (hp.2 _) (freelist_of_noPush hp.1 hpop.2)
      · exact ih _ (hp.2 _) ⟨x, hrest, hpop⟩

end Exhaustion

section Allocations

variable {W : Type} [DecidableEq W] [Zero W] {α ι : Type} [DecidableEq ι]

/-- The answers of the allocator in a run, with the programs that got them. -/
def grants (c : Pool (heapEffect W) α (Heap W) ι) : List ι → List (ι × W)
  | [] => []
  | i :: rest =>
      match poolStep heapHandler c i with
      | none => []
      | some d =>
          (match c.threads i with
            | .access .pop _ => [(i, c.shared.freelist)]
            | _ => []) ++ grants d rest

theorem grants_cons {c d : Pool (heapEffect W) α (Heap W) ι} {i : ι}
    (h : poolStep heapHandler c i = some d) (rest : List ι) :
    grants c (i :: rest) =
      (match c.threads i with
        | .access .pop _ => [(i, c.shared.freelist)]
        | _ => []) ++ grants d rest := by
  simp only [grants, h]

end Allocations

section Sharing

variable {W : Type} [Zero W] {ι : Type}

/-- The words that the programs own from the start overlap neither each other
nor the blocks. -/
structure Homes (L : Layout W) (home : ι → Set W) : Prop where
  disjoint : ∀ i j, i ≠ j → Disjoint (home i) (home j)
  disjoint_block : ∀ i p, L.Valid p → Disjoint (home i) (L.block p)
  disjoint_scratch : ∀ i, Disjoint (home i) L.scratch

/-- The memory is divided between the shares and the free list. -/
structure Separated (L : Layout W) (home : ι → Set W) (s : Heap W) (shares : ι → Share W)
    (free : List W) : Prop where
  agree : ∀ i a, (shares i).Owns L (home i) a → s.mem a = (shares i).view a
  linked : Linked s.mem s.freelist free
  nodup : free.Nodup
  free_valid : ∀ p ∈ free, L.Valid p
  block_valid : ∀ i, ∀ p ∈ (shares i).blocks, L.Valid p
  block_not_free : ∀ i, ∀ p ∈ (shares i).blocks, p ∉ free
  block_disjoint : ∀ i j, i ≠ j → ∀ p ∈ (shares i).blocks, p ∉ (shares j).blocks

namespace Separated

variable {L : Layout W} {home : ι → Set W} {s : Heap W} {shares : ι → Share W} {free : List W}

/-- A word of a free block has no owner. -/
theorem not_owns_of_free (hhome : Homes L home) (h : Separated L home s shares free) {p a : W}
    (hp : p ∈ free) (ha : a ∈ L.block p) (i : ι) : ¬ (shares i).Owns L (home i) a := by
  rintro (hin | ⟨q, hq, hin⟩)
  · exact Set.disjoint_left.mp (hhome.disjoint_block i p (h.free_valid p hp)) hin ha
  · refine Set.disjoint_left.mp
      (L.disjoint_block q p (h.block_valid i q hq) (h.free_valid p hp) ?_) hin ha
    rintro rfl
    exact h.block_not_free i q hq hp

/-- A word has at most one owner. -/
theorem not_owns_of_owns (hhome : Homes L home) (h : Separated L home s shares free) {i j : ι}
    (hij : i ≠ j) {a : W} (ha : (shares i).Owns L (home i) a) :
    ¬ (shares j).Owns L (home j) a := by
  rintro (hj | ⟨q, hq, hj⟩)
  · rcases ha with hi | ⟨p, hp, hi⟩
    · exact Set.disjoint_left.mp (hhome.disjoint i j hij) hi hj
    · exact Set.disjoint_left.mp (hhome.disjoint_block j p (h.block_valid i p hp)) hj hi
  · rcases ha with hi | ⟨p, hp, hi⟩
    · exact Set.disjoint_left.mp (hhome.disjoint_block i q (h.block_valid j q hq)) hi hj
    · refine Set.disjoint_left.mp
        (L.disjoint_block p q (h.block_valid i p hp) (h.block_valid j q hq) ?_) hi hj
      rintro rfl
      exact h.block_disjoint i j hij p hp hq

theorem not_owns_of_scratch (hhome : Homes L home) (h : Separated L home s shares free) {a : W}
    (ha : a ∈ L.scratch) (i : ι) : ¬ (shares i).Owns L (home i) a := by
  rintro (hin | ⟨q, hq, hin⟩)
  · exact Set.disjoint_left.mp (hhome.disjoint_scratch i) hin ha
  · exact Set.disjoint_left.mp (L.disjoint_scratch q (h.block_valid i q hq)) hin ha

/-- The words of the scratch memory do not matter. -/
theorem congr_scratch (hhome : Homes L home) (h : Separated L home s shares free) {t : Heap W}
    (hmem : ∀ a, a ∉ L.scratch → t.mem a = s.mem a) (hhead : t.freelist = s.freelist) :
    Separated L home t shares free where
  agree i a ha := by
    rw [hmem a fun hin => h.not_owns_of_scratch hhome hin i ha]
    exact h.agree i a ha
  linked := by
    rw [hhead]
    refine h.linked.congr fun p hp => hmem p fun hin => ?_
    have hvalid := h.free_valid p hp
    exact Set.disjoint_left.mp (L.disjoint_scratch p hvalid) (L.mem_block p hvalid) hin
  nodup := h.nodup
  free_valid := h.free_valid
  block_valid := h.block_valid
  block_not_free := h.block_not_free
  block_disjoint := h.block_disjoint

theorem freelist_mem (h : Separated L home s shares free) (hne : s.freelist ≠ 0) :
    s.freelist ∈ free := by
  cases free with
  | nil => exact absurd h.linked hne
  | cons p rest => simp [h.linked.1]

theorem valid_freelist (h : Separated L home s shares free) (hne : s.freelist ≠ 0) :
    ∃ rest, free = s.freelist :: rest ∧ L.Valid s.freelist := by
  cases free with
  | nil => exact absurd h.linked hne
  | cons p rest =>
      obtain ⟨hhead, -, -⟩ := h.linked
      exact ⟨rest, by rw [hhead], hhead ▸ h.free_valid p (by simp)⟩

theorem freelist_notMem_blocks (h : Separated L home s shares free) (hne : s.freelist ≠ 0)
    (i : ι) : s.freelist ∉ (shares i).blocks := by
  obtain ⟨rest, rfl, -⟩ := h.valid_freelist hne
  exact fun hmem => h.block_not_free i _ hmem (by simp)

/-- Some of the programs with their shares. -/
theorem comp {κ : Type} {f : κ → ι} (hf : Function.Injective f)
    (h : Separated L home s shares free) :
    Separated L (fun k => home (f k)) s (fun k => shares (f k)) free where
  agree k := h.agree (f k)
  linked := h.linked
  nodup := h.nodup
  free_valid := h.free_valid
  block_valid k := h.block_valid (f k)
  block_not_free k := h.block_not_free (f k)
  block_disjoint k k' hne := h.block_disjoint (f k) (f k') (hf.ne hne)

variable [DecidableEq W] [DecidableEq ι]

theorem store (hhome : Homes L home) (h : Separated L home s shares free) (i : ι) {p : W} (v : W)
    (hp : (shares i).Owns L (home i) p ∨ p ∈ L.scratch) :
    Separated L home { s with mem := Function.update s.mem p v }
      (Function.update shares i ((shares i).write p v)) free := by
  have hblocks : ∀ j, (Function.update shares i ((shares i).write p v) j).blocks =
      (shares j).blocks := by
    intro j
    rcases eq_or_ne j i with rfl | hj
    · simp [Share.write]
    · simp [hj]
  have howns : ∀ j a, (Function.update shares i ((shares i).write p v) j).Owns L (home j) a ↔
      (shares j).Owns L (home j) a := by
    intro j a
    simp only [Share.Owns, hblocks]
  refine
    { agree := ?_
      linked := ?_
      nodup := h.nodup
      free_valid := h.free_valid
      block_valid := fun j => by rw [hblocks]; exact h.block_valid j
      block_not_free := fun j => by rw [hblocks]; exact h.block_not_free j
      block_disjoint := fun j k => by rw [hblocks, hblocks]; exact h.block_disjoint j k }
  · intro j a ha
    rw [howns] at ha
    rcases eq_or_ne j i with rfl | hj
    · rcases eq_or_ne a p with hap | hap
      · simp [hap, Share.write]
      · simpa [hap, Share.write] using h.agree j a ha
    · have hap : a ≠ p := by
        rintro rfl
        rcases hp with hp | hp
        · exact h.not_owns_of_owns hhome (Ne.symm hj) hp ha
        · exact h.not_owns_of_scratch hhome hp j ha
      simpa [hap, hj] using h.agree j a ha
  · refine h.linked.congr fun q hq => Function.update_of_ne ?_ _ _
    rintro rfl
    have hblock := L.mem_block q (h.free_valid q hq)
    rcases hp with hp | hp
    · exact h.not_owns_of_free hhome hq hblock i hp
    · exact Set.disjoint_left.mp (L.disjoint_scratch q (h.free_valid q hq)) hblock hp

omit [DecidableEq W] in
/-- The first free block goes to share `i`. -/
theorem pop (h : Separated L home s shares free) (i : ι) (hne : s.freelist ≠ 0) :
    Separated L home { s with freelist := s.mem s.freelist }
      (Function.update shares i ((shares i).grant L s.freelist s.mem)) free.tail := by
  obtain ⟨rest, rfl, hvalid⟩ := h.valid_freelist hne
  obtain ⟨hnotMem, hnodup⟩ := List.nodup_cons.mp h.nodup
  have hblocks : ∀ j p, p ∈ (Function.update shares i
      ((shares i).grant L s.freelist s.mem) j).blocks →
      (j = i ∧ p = s.freelist) ∨ p ∈ (shares j).blocks := by
    intro j p hp
    rcases eq_or_ne j i with rfl | hj
    · simpa [Share.grant] using hp
    · exact .inr (by simpa [hj] using hp)
  refine
    { agree := ?_
      linked := h.linked.2.2
      nodup := hnodup
      free_valid := fun p hp => h.free_valid p (by simp [List.mem_of_mem_tail hp])
      block_valid := ?_
      block_not_free := ?_
      block_disjoint := ?_ }
  · intro j a ha
    rcases eq_or_ne j i with rfl | hj
    · rw [Function.update_self] at ha ⊢
      by_cases hin : a ∈ L.block s.freelist
      · simp [Share.grant, hin]
      · simp only [Share.grant, hin, if_false]
        refine h.agree j a ?_
        rcases ha with ha | ⟨p, hp, ha⟩
        · exact .inl ha
        · rcases List.mem_cons.mp hp with rfl | hp
          · exact absurd ha hin
          · exact .inr ⟨p, hp, ha⟩
    · rw [Function.update_of_ne hj] at ha ⊢
      exact h.agree j a ha
  · intro j p hp
    rcases hblocks j p hp with ⟨-, rfl⟩ | hp
    · exact hvalid
    · exact h.block_valid j p hp
  · intro j p hp hfree
    rcases hblocks j p hp with ⟨-, rfl⟩ | hp
    · exact hnotMem hfree
    · exact h.block_not_free j p hp (List.mem_cons_of_mem _ hfree)
  · intro j k hjk p hp hp'
    rcases hblocks j p hp with ⟨rfl, rfl⟩ | hp
    · rcases hblocks k _ hp' with ⟨rfl, -⟩ | hp'
      · exact hjk rfl
      · exact h.freelist_notMem_blocks hne k hp'
    · rcases hblocks k p hp' with ⟨-, rfl⟩ | hp'
      · exact h.freelist_notMem_blocks hne j hp
      · exact h.block_disjoint j k hjk p hp hp'

/-- A block of share `i` becomes the first free one. -/
theorem push (hhome : Homes L home) (h : Separated L home s shares free) (i : ι) {p : W}
    (hp : p ∈ (shares i).blocks) :
    Separated L home { mem := Function.update s.mem p s.freelist, freelist := p }
      (Function.update shares i ((shares i).drop p)) (p :: free) := by
  have hvalid := h.block_valid i p hp
  have hblocks : ∀ j q, q ∈ (Function.update shares i ((shares i).drop p) j).blocks →
      q ∈ (shares j).blocks ∧ q ≠ p := by
    intro j q hq
    rcases eq_or_ne j i with rfl | hj
    · simpa [Share.drop] using hq
    · rw [Function.update_of_ne hj] at hq
      exact ⟨hq, fun heq => h.block_disjoint i j (Ne.symm hj) p hp (heq ▸ hq)⟩
  have howns : ∀ j a, (Function.update shares i ((shares i).drop p) j).Owns L (home j) a →
      (shares j).Owns L (home j) a ∧ a ≠ p := by
    rintro j a (ha | ⟨q, hq, ha⟩)
    · refine ⟨.inl ha, ?_⟩
      rintro rfl
      exact Set.disjoint_left.mp (hhome.disjoint_block j a hvalid) ha (L.mem_block a hvalid)
    · obtain ⟨hmem, hne⟩ := hblocks j q hq
      refine ⟨.inr ⟨q, hmem, ha⟩, ?_⟩
      rintro rfl
      exact Set.disjoint_left.mp (L.disjoint_block q a (h.block_valid j q hmem) hvalid hne) ha
        (L.mem_block a hvalid)
  refine
    { agree := ?_
      linked := ⟨rfl, ?_, ?_⟩
      nodup := List.nodup_cons.mpr ⟨h.block_not_free i p hp, h.nodup⟩
      free_valid := ?_
      block_valid := fun j q hq => h.block_valid j q (hblocks j q hq).1
      block_not_free := ?_
      block_disjoint := fun j k hjk q hq hq' =>
        h.block_disjoint j k hjk q (hblocks j q hq).1 (hblocks k q hq').1 }
  · intro j a ha
    obtain ⟨hown, hne⟩ := howns j a ha
    have hview : (Function.update shares i ((shares i).drop p) j).view a = (shares j).view a := by
      rcases eq_or_ne j i with rfl | hj
      · simp [Share.drop]
      · rw [Function.update_of_ne hj]
    simpa [hne, hview] using h.agree j a hown
  · rintro rfl
    exact L.not_valid_zero hvalid
  · show Linked _ (Function.update s.mem p s.freelist p) free
    rw [Function.update_self]
    refine h.linked.congr fun q hq => Function.update_of_ne ?_ _ _
    rintro rfl
    exact h.block_not_free i q hp hq
  · rintro q (_ | ⟨_, hq⟩)
    · exact hvalid
    · exact h.free_valid q hq
  · intro j q hq hfree
    obtain ⟨hmem, hne⟩ := hblocks j q hq
    exact h.block_not_free j q hmem ((List.mem_cons.mp hfree).resolve_left hne)

variable {fails : Prop} {α : Type}

/-- One access of program `i` does to the memory what it does to the share. -/
theorem access (hhome : Homes L home) (h : Separated L home s shares free) {i : ι}
    {o : HeapOp W} {k : (heapEffect W).Answer o → Program (heapEffect W) α}
    {Q : α → Share W → Prop}
    (hk : Ensures L fails (home i) (.access o k) (shares i) Q)
    (hfails : o = .pop → s.freelist = 0 → fails) :
    ∃ l free', Separated L home (heapHandler o s).2 (Function.update shares i l) free' ∧
      Ensures L fails (home i) (k (heapHandler o s).1) l Q ∧
      (∀ p ∈ l.blocks, p ∈ (shares i).blocks ∨ (o = .pop ∧ p = s.freelist)) ∧
      ∀ p, (p ∈ free' ∨ p ∈ l.blocks) ↔ (p ∈ free ∨ p ∈ (shares i).blocks) := by
  cases o with
  | load p =>
      have hvalue := h.agree i p hk.1
      refine ⟨shares i, free, by simpa [heapHandler] using h, ?_, fun q hq => .inl hq, fun _ => .rfl⟩
      simpa [heapHandler, hvalue] using hk.2
  | store p v =>
      have hp : (shares i).Owns L (home i) p ∨ p ∈ L.scratch := hk.1.imp_right And.right
      exact ⟨_, free, h.store hhome i v hp, hk.2, fun q hq => .inl hq, fun _ => .rfl⟩
  | pop =>
      rcases eq_or_ne s.freelist 0 with hzero | hzero
      · have hnull := hk.2 (hfails rfl hzero)
        refine ⟨shares i, free, by simpa [heapHandler, hzero] using h, ?_, fun q hq => .inl hq,
          fun _ => .rfl⟩
        simpa [heapHandler, hzero] using hnull
      · obtain ⟨rest, hfree, hvalid⟩ := h.valid_freelist hzero
        refine ⟨_, free.tail, by simpa [heapHandler, hzero] using h.pop i hzero, ?_, ?_, ?_⟩
        · exact hk.1 s.freelist s.mem hvalid fun a ha =>
            h.not_owns_of_free hhome (h.freelist_mem hzero) ha i
        · intro q hq
          rcases List.mem_cons.mp hq with rfl | hq
          · exact .inr ⟨rfl, rfl⟩
          · exact .inl hq
        · intro q
          simp only [hfree, List.tail_cons, Share.grant, List.mem_cons]
          tauto
  | push p =>
      refine ⟨_, p :: free, h.push hhome i hk.1, hk.2,
        fun q hq => .inl (List.mem_filter.mp hq).1, fun q => ?_⟩
      have hp : p ∈ (shares i).blocks := hk.1
      rcases eq_or_ne q p with hqp | hqp
      · simp [hqp, hp]
      · simp [Share.drop, hqp]

/-- The blocks of a program that ran alone: those it had and those it was given,
and none is lost. -/
structure Conserved (p : Program (heapEffect W) α) (s : Heap W) (l : Share W) (free : List W)
    (l' : Share W) (free' : List W) : Prop where
  answered : ∀ q ∈ l'.blocks, q ∈ l.blocks ∨ Answered p s q
  given : ∀ q, Answered p s q → q = 0 ∨ q ∈ free ∨ q ∈ l.blocks
  conserved : ∀ q, (q ∈ free' ∨ q ∈ l'.blocks) ↔ (q ∈ free ∨ q ∈ l.blocks)

/-- What a program ensures of its share holds when it is run alone. -/
theorem exec (hhome : Homes L home) {i : ι} {p : Program (heapEffect W) α}
    {Q : α → Share W → Prop} (h : Separated L home s shares free)
    (hp : Ensures L fails (home i) p (shares i) Q) (hfails : Exhausts p s → fails) {a : α}
    {s' : Heap W} (hexec : EffectProgram.exec heapHandler p s = (.ok a, s')) :
    ∃ l free', Separated L home s' (Function.update shares i l) free' ∧ Q a l ∧
      Conserved p s (shares i) free l free' := by
  induction p generalizing s shares free with
  | done b =>
      cases hexec
      refine ⟨shares i, free, by simpa using h, hp, fun q hq => .inl hq, ?_, fun _ => .rfl⟩
      rintro q ⟨x, hx, -⟩
      exact absurd hx (by simp [accesses])
  | panic message => cases hexec
  | access o k ih =>
      obtain ⟨l, free', hsep, hrest, hanswered, hkept⟩ := h.access hhome hp fun ho hzero =>
        hfails ⟨(s, o), by simp [accesses], ho, hzero⟩
      have hfails' : Exhausts (k (heapHandler o s).1) (heapHandler o s).2 → fails := by
        rintro ⟨x, hx, hpop⟩
        exact hfails ⟨x, by simp [accesses, hx], hpop⟩
      obtain ⟨l', free'', hsep', hQ, hanswered', hgiven', hkept'⟩ := ih _ hsep (by simpa using hrest)
        hfails' hexec
      rw [Function.update_self] at hanswered' hgiven' hkept'
      refine ⟨l', free'', by simpa using hsep', hQ, fun q hq => ?_, ?_, fun q => ?_⟩
      · rcases hanswered' q hq with hq | ⟨x, hx, hpop⟩
        · refine (hanswered q hq).imp_right fun hq => ?_
          exact ⟨(s, o), by simp [accesses], hq.1, hq.2.symm⟩
        · exact .inr ⟨x, by simp [accesses, hx], hpop⟩
      · rintro q ⟨x, hx, hpop⟩
        rcases List.mem_cons.mp hx with rfl | hx
        · rcases eq_or_ne q 0 with hq | hq
          · exact .inl hq
          · obtain rfl : s.freelist = q := hpop.2
            exact .inr (.inl (h.freelist_mem hq))
        · rw [← hkept]
          exact hgiven' q ⟨x, hx, hpop⟩
      · rw [hkept', hkept]

/-- The same with a panic as a result. -/
theorem exec_attempt (hhome : Homes L home) {i : ι} {p : Program (heapEffect W) α}
    {Q : Except String α → Share W → Prop} (h : Separated L home s shares free)
    (hp : Ensures L fails (home i) p.attempt (shares i) Q) (hfails : Exhausts p s → fails) :
    ∃ l free', Separated L home (EffectProgram.exec heapHandler p s).2
        (Function.update shares i l) free' ∧ Q (EffectProgram.exec heapHandler p s).1 l ∧
      Conserved p s (shares i) free l free' := by
  obtain ⟨l, free', hsep, hQ, hanswered, hgiven, hkept⟩ := h.exec hhome hp (fun hex => hfails (by
    rwa [Exhausts, accesses_attempt] at hex)) (EffectProgram.exec_attempt heapHandler p s)
  simp only [Answered, accesses_attempt] at hanswered hgiven
  exact ⟨l, free', hsep, hQ, hanswered, hgiven, hkept⟩

/-- The free blocks of before are those still free and those taken. -/
theorem Conserved.free_perm {p : Program (heapEffect W) α} {s' : Heap W} {i : ι} {l' : Share W}
    {free' new : List W} (hkept : Conserved p s (shares i) free l' free')
    (h : Separated L home s shares free)
    (h' : Separated L home s' (Function.update shares i l') free')
    (hblocks : ∀ q ∈ (shares i).blocks, q ∈ l'.blocks) (hnodup : new.Nodup)
    (hnew : ∀ q, q ∈ new ↔ q ∈ l'.blocks ∧ q ∉ (shares i).blocks) : free.Perm (free' ++ new) := by
  have hnot : ∀ q ∈ l'.blocks, q ∉ free' := fun q hq =>
    h'.block_not_free i q (by rwa [Function.update_self])
  rw [List.perm_ext_iff_of_nodup h.nodup (List.nodup_append.mpr ⟨h'.nodup, hnodup, ?_⟩)]
  · intro q
    rw [List.mem_append, hnew]
    have hsame := hkept.conserved q
    constructor
    · intro hq
      rcases hsame.mpr (.inl hq) with hfree | hheld
      · exact .inl hfree
      · exact .inr ⟨hheld, fun hmem => h.block_not_free i q hmem hq⟩
    · rintro (hfree | ⟨hheld, hmem⟩)
      · refine (hsame.mp (.inl hfree)).resolve_right fun hmem => ?_
        exact hnot q (hblocks q hmem) hfree
      · exact (hsame.mp (.inr hheld)).resolve_right hmem
  · rintro q hfree q' hq' rfl
    exact hnot q ((hnew q).mp hq').1 hfree

/-- A program that has run out of blocks holds all that were free. -/
theorem free_subset_of_exhausts (hhome : Homes L home) {i : ι} {p : Program (heapEffect W) α}
    {Q : Except String α → Share W → Prop} (h : Separated L home s shares free)
    (hp : Ensures L True (home i) p.attempt (shares i) Q) (hpush : p.Uses NoPush)
    (hex : Exhausts p s) : ∃ r l, Q r l ∧ ∀ q ∈ free, q ∈ l.blocks := by
  obtain ⟨l, free', hsep, hQ, hkept⟩ := h.exec_attempt hhome hp fun _ => trivial
  have hnone : free' = [] := by
    have hzero := freelist_of_exhausts hpush hex
    cases free' with
    | nil => rfl
    | cons q rest => exact absurd (hsep.linked.1.symm.trans hzero) hsep.linked.2.1
  exact ⟨_, l, hQ, fun q hq =>
    ((hkept.conserved q).mpr (.inl hq)).resolve_left (by simp [hnone])⟩

/-- In an interleaving, what each program ensures of its share holds throughout,
and its blocks are those it had and those the allocator gave it. -/
theorem run (hhome : Homes L home) {Q : ι → α → Share W → Prop}
    {c c' : Pool (heapEffect W) α (Heap W) ι} {schedule : List ι}
    (h : Separated L home c.shared shares free)
    (hc : ∀ i, Ensures L fails (home i) (c.threads i) (shares i) (Q i))
    (hguard : GuardedRun (poolStep heapHandler)
      (fun d i => ∀ k, d.threads i = .access .pop k → d.shared.freelist = 0 → fails) c schedule)
    (hrun : TransitionSystem.run (poolStep heapHandler) c schedule = some c') :
    ∃ shares' free', Separated L home c'.shared shares' free' ∧
      (∀ i, Ensures L fails (home i) (c'.threads i) (shares' i) (Q i)) ∧
      ∀ i, ∀ p ∈ (shares' i).blocks, p ∈ (shares i).blocks ∨ (i, p) ∈ grants c schedule := by
  induction schedule generalizing c shares free with
  | nil =>
      cases Option.some.inj hrun
      exact ⟨shares, free, h, hc, fun i p hp => .inl hp⟩
  | cons i schedule ih =>
      simp only [TransitionSystem.run, Option.bind_eq_some_iff] at hrun
      obtain ⟨d, hstep, hrest⟩ := hrun
      obtain ⟨hfails, hguard⟩ := hguard d hstep
      have hgrants := grants_cons hstep schedule
      obtain ⟨o, k, hthread, rfl⟩ := exists_of_poolStep hstep
      obtain ⟨l, free', hsep, hnext, hblocks, -⟩ := h.access hhome (hthread ▸ hc i) (by
        rintro rfl
        exact hfails k hthread)
      have hc' : ∀ j, Ensures L fails (home j)
          (Function.update c.threads i (k (heapHandler o c.shared).1) j)
          (Function.update shares i l j) (Q j) := by
        intro j
        rcases eq_or_ne j i with rfl | hj
        · simpa using hnext
        · simpa [hj] using hc j
      obtain ⟨shares', free'', hsep', hend, hfrom⟩ := ih hsep hc' hguard hrest
      refine ⟨shares', free'', hsep', hend, fun j p hp => ?_⟩
      rw [hgrants]
      rcases hfrom j p hp with hp | hp
      · rcases eq_or_ne j i with rfl | hj
        · rw [Function.update_self] at hp
          rcases hblocks p hp with hp | ⟨rfl, rfl⟩
          · exact .inl hp
          · exact .inr (by simp [hthread])
        · rw [Function.update_of_ne hj] at hp
          exact .inl hp
      · exact .inr (List.mem_append_right _ hp)

/-- The same for programs whose panics are results. -/
theorem run_attempt (hhome : Homes L home) {Q : ι → Except String α → Share W → Prop}
    {c c' : Pool (heapEffect W) α (Heap W) ι} {schedule : List ι}
    (h : Separated L home c.shared shares free)
    (hc : ∀ i, Ensures L fails (home i) (c.threads i).attempt (shares i) (Q i))
    (hguard : GuardedRun (poolStep heapHandler)
      (fun d i => ∀ k, d.threads i = .access .pop k → d.shared.freelist = 0 → fails) c schedule)
    (hrun : TransitionSystem.run (poolStep heapHandler) c schedule = some c') :
    ∃ shares' free', Separated L home c'.shared shares' free' ∧
      ∀ i, Ensures L fails (home i) (c'.threads i).attempt (shares' i) (Q i) := by
  have hguard' : GuardedRun (poolStep heapHandler)
      (fun d i => ∀ k, d.threads i = .access .pop k → d.shared.freelist = 0 → fails) c.attempt
      schedule := by
    apply guardedRun_attempt _ hguard
    intro d i hpop k hk
    cases hthread : d.threads i with
    | done a => simp [Pool.attempt, hthread, Program.attempt] at hk
    | panic message => simp [Pool.attempt, hthread, Program.attempt] at hk
    | access o k' =>
        simp only [Pool.attempt, hthread, Program.attempt, Program.access.injEq] at hk
        obtain ⟨rfl, -⟩ := hk
        exact hpop k' hthread
  have hrun' : TransitionSystem.run (poolStep heapHandler) c.attempt schedule = some c'.attempt := by
    rw [run_pool_attempt, hrun, Option.map_some]
  have hstart : Separated L home c.attempt.shared shares free := h
  obtain ⟨shares', free', hsep, hend, -⟩ := run hhome hstart hc hguard' hrun'
  exact ⟨shares', free', hsep, hend⟩

end Separated

end Sharing

section Supply

variable {W : Type} [DecidableEq W] [Zero W] {α ι : Type} {L : Layout W} {home : Set W}

/-- A program that gives nothing back has an end at which it holds what it held,
namely when every allocation fails. -/
theorem Ensures.exists_end {p : Program (heapEffect W) α} {l : Share W} {Q : α → Share W → Prop}
    (h : Ensures L True home p l Q) (hpanics : p.NeverPanics) (hpush : p.Uses NoPush) :
    ∃ a l', Q a l' ∧ l'.blocks = l.blocks := by
  induction p generalizing l with
  | done a => exact ⟨a, l, h, rfl⟩
  | panic message => exact hpanics.elim
  | access o k ih =>
      cases o with
      | load p => exact ih _ h.2 (hpanics _) (hpush.2 _)
      | store p v => exact ih () (l := l.write p v) h.2 (hpanics ()) (hpush.2 ())
      | pop => exact ih _ (h.2 trivial) (hpanics _) (hpush.2 _)
      | push p => exact hpush.1.elim

variable [DecidableEq ι] [Fintype ι]

/-- No allocation of a pool fails when there are more free blocks than its programs
can hold at their ends. -/
theorem allocations_succeed {home : ι → Set W} (hhome : Homes L home)
    {Q : ι → Except String α → Share W → Prop} {bound : ι → Nat} {free₀ : List W}
    (hbound : ∀ i r l, Q i r l → ∀ pages : List W, pages.Nodup → (∀ p ∈ pages, p ∈ l.blocks) →
      pages.length ≤ bound i)
    (henough : ∑ i, bound i < free₀.length) (hnodup : free₀.Nodup)
    {c : Pool (heapEffect W) α (Heap W) ι} {shares : ι → Share W} {free : List W}
    (h : Separated L home c.shared shares free)
    (hc : ∀ i, Ensures L True (home i) (c.threads i).attempt (shares i) (Q i))
    (hpush : ∀ i, (c.threads i).Uses NoPush)
    (hkept : ∀ p ∈ free₀, p ∈ free ∨ ∃ i, p ∈ (shares i).blocks) (schedule : List ι) :
    GuardedRun (poolStep heapHandler)
      (fun d i => ∀ k, d.threads i = .access .pop k → d.shared.freelist ≠ 0) c schedule := by
  induction schedule generalizing c shares free with
  | nil => trivial
  | cons i schedule ih =>
      intro d hstep
      constructor
      · intro k hthread hzero
        have hnone : free = [] := by
          cases free with
          | nil => rfl
          | cons p rest => exact absurd (h.linked.1.symm.trans hzero) h.linked.2.1
        have hend : ∀ j, ((free₀.filter fun p => p ∈ (shares j).blocks).length ≤ bound j) := by
          intro j
          obtain ⟨r, l, hQ, hblocks⟩ :=
            (hc j).exists_end (Program.neverPanics_attempt _) (hpush j).attempt
          apply hbound j r l hQ _ (hnodup.filter _)
          intro p hp
          rw [hblocks]
          simpa using (List.mem_filter.mp hp).2
        have hcover : free₀ ⊆ Finset.univ.toList.flatMap fun j =>
            free₀.filter fun p => p ∈ (shares j).blocks := by
          intro p hp
          obtain ⟨j, hj⟩ := (hkept p hp).resolve_left (by simp [hnone])
          exact List.mem_flatMap.mpr ⟨j, by simp, List.mem_filter.mpr ⟨hp, by simpa using hj⟩⟩
        have hlength := (hnodup.subperm hcover).length_le
        rw [List.length_flatMap, Finset.sum_map_toList] at hlength
        have hsum := Finset.sum_le_sum fun j (_ : j ∈ Finset.univ) => hend j
        omega
      · obtain ⟨o, k, hthread, rfl⟩ := exists_of_poolStep hstep
        have hi : Ensures L True (home i) (.access o fun r => (k r).attempt) (shares i) (Q i) := by
          have hi := hc i
          rwa [hthread] at hi
        obtain ⟨l, free', hsep, hnext, -, hconserved⟩ := h.access hhome hi fun _ _ => trivial
        refine ih hsep (fun j => ?_) (fun j => ?_) fun p hp => ?_
        · rcases eq_or_ne j i with rfl | hj
          · simpa using hnext
          · simpa [hj] using hc j
        · rcases eq_or_ne j i with rfl | hj
          · have hj := hpush j
            rw [hthread] at hj
            simpa using hj.2 _
          · simpa [hj] using hpush j
        · rcases hkept p hp with hfree | ⟨j, hj⟩
          · refine ((hconserved p).mpr (.inl hfree)).imp_right fun hl => ⟨i, by simpa using hl⟩
          · rcases eq_or_ne j i with rfl | hne
            · exact ((hconserved p).mpr (.inr hj)).imp_right fun hl => ⟨j, by simpa using hl⟩
            · exact .inr ⟨j, by simpa [hne] using hj⟩

end Supply

end RiscvHypervisor.OwnedMemory
