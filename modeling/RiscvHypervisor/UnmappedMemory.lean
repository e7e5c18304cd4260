import RiscvHypervisor.OwnedMemory

/-!
Programs on a machine that does not map the scratch words: the first access to one
of them traps, and the program does not come back.  A program that first writes to
the block that an allocation has given it traps exactly when it runs out of blocks.
-/

namespace RiscvHypervisor.UnmappedMemory

open RiscvHypervisor.EffectProgram
open RiscvHypervisor.OwnedMemory

section Programs

variable {W : Type} {α β : Type}

/-- The access is to a word of the set.  The allocator itself touches free blocks only. -/
def hits (unmapped : W → Bool) : HeapOp W → Bool
  | .load p => unmapped p
  | .store p _ => unmapped p
  | .push p => unmapped p
  | .pop => false

def StoresTo (unmapped : W → Bool) : HeapOp W → Prop
  | .store p _ => unmapped p
  | _ => False

/-- The first thing that the program does with the answer of an allocation is to
write to it. -/
def WritesAnswers : Program (heapEffect W) α → Prop
  | .done _ => True
  | .panic _ => True
  | .access (.load _) k => ∀ v, WritesAnswers (k v)
  | .access (.store _ _) k => ∀ u, WritesAnswers (k u)
  | .access .pop k => ∀ q : W, (∃ v k', k q = .access (.store q v) k') ∧ WritesAnswers (k q)
  | .access (.push _) k => ∀ u, WritesAnswers (k u)

theorem writesAnswers_pop (k : W → Program (heapEffect W) α) :
    WritesAnswers (.access (E := heapEffect W) .pop k) ↔
      ∀ q : W, (∃ v k', k q = .access (.store q v) k') ∧ WritesAnswers (k q) := Iff.rfl

theorem WritesAnswers.bind {p : Program (heapEffect W) α} {f : α → Program (heapEffect W) β}
    (hp : WritesAnswers p) (hf : ∀ a, WritesAnswers (f a)) : WritesAnswers (p >>= f) := by
  induction p with
  | done a => exact hf a
  | panic message => trivial
  | access o k ih =>
      cases o with
      | load p => exact fun v => ih v (hp v)
      | store p v => exact fun u => ih u (hp u)
      | pop =>
          intro q
          obtain ⟨⟨v, k', hfirst⟩, hrest⟩ := hp q
          refine ⟨⟨v, fun r => k' r >>= f, ?_⟩, ih q hrest⟩
          change (k q >>= f) = _
          rw [hfirst]
          rfl
      | push p => exact fun u => ih u (hp u)

theorem writesAnswers_ite {c : Prop} [Decidable c] {p q : Program (heapEffect W) α}
    (hp : WritesAnswers p) (hq : WritesAnswers q) : WritesAnswers (if c then p else q) := by
  split
  · exact hp
  · exact hq

theorem writesAnswers_of_noPop {p : Program (heapEffect W) α} (hp : p.Uses NoPop) :
    WritesAnswers p := by
  induction p with
  | done a => trivial
  | panic message => trivial
  | access o k ih =>
      cases o with
      | load p => exact fun v => ih v (hp.2 v)
      | store p v => exact fun u => ih u (hp.2 u)
      | pop => exact hp.1.elim
      | push p => exact fun u => ih u (hp.2 u)

variable [Zero W]

/-- Once an allocation has failed the program only writes to unmapped words, and
then returns `r`. -/
def Quits (unmapped : W → Bool) (r : α) : Program (heapEffect W) α → Prop
  | .done _ => True
  | .panic _ => True
  | .access (.load _) k => ∀ v, Quits unmapped r (k v)
  | .access (.store _ _) k => ∀ u, Quits unmapped r (k u)
  | .access .pop k => (k (0 : W)).Returns (StoresTo unmapped) r ∧ ∀ q : W, Quits unmapped r (k q)
  | .access (.push _) k => ∀ u, Quits unmapped r (k u)

variable {unmapped : W → Bool}

theorem quits_pop (r : α) (k : W → Program (heapEffect W) α) :
    Quits unmapped r (.access (E := heapEffect W) .pop k) ↔
      (k 0).Returns (StoresTo unmapped) r ∧ ∀ q : W, Quits unmapped r (k q) := Iff.rfl

theorem Quits.bind {p : Program (heapEffect W) α} {f : α → Program (heapEffect W) β} {r : α} {r' : β}
    (hp : Quits unmapped r p) (hr : f r = .done r') (hf : ∀ a, Quits unmapped r' (f a)) :
    Quits unmapped r' (p >>= f) := by
  induction p with
  | done a => exact hf a
  | panic message => trivial
  | access o k ih =>
      cases o with
      | load p => exact fun v => ih v (hp v)
      | store p v => exact fun u => ih u (hp u)
      | pop =>
          have hend : (f r).Returns (StoresTo unmapped) r' := by
            rw [hr]
            rfl
          exact ⟨hp.1.bind hend, fun q => ih q (hp.2 q)⟩
      | push p => exact fun u => ih u (hp u)

theorem quits_ite {c : Prop} [Decidable c] {p q : Program (heapEffect W) α} {r : α}
    (hp : Quits unmapped r p) (hq : Quits unmapped r q) : Quits unmapped r (if c then p else q) := by
  split
  · exact hp
  · exact hq

theorem quits_of_noPop {p : Program (heapEffect W) α} (hp : p.Uses NoPop) (r : α) :
    Quits unmapped r p := by
  induction p with
  | done a => trivial
  | panic message => trivial
  | access o k ih =>
      cases o with
      | load p => exact fun v => ih v (hp.2 v)
      | store p v => exact fun u => ih u (hp.2 u)
      | pop => exact hp.1.elim
      | push p => exact fun u => ih u (hp.2 u)

theorem Quits.noPop_bind {p : Program (heapEffect W) α} {f : α → Program (heapEffect W) β} {r : β}
    (hp : p.Uses NoPop) (hf : ∀ a, Quits unmapped r (f a)) : Quits unmapped r (p >>= f) := by
  induction p with
  | done a => exact hf a
  | panic message => trivial
  | access o k ih =>
      cases o with
      | load p => exact fun v => ih v (hp.2 v)
      | store p v => exact fun u => ih u (hp.2 u)
      | pop => exact hp.1.elim
      | push p => exact fun u => ih u (hp.2 u)

variable [DecidableEq W]

/-- Writes to unmapped words leave the others alone. -/
theorem exec_of_returns {p : Program (heapEffect W) α} {r : α}
    (hp : p.Returns (StoresTo unmapped) r) (s : Heap W) :
    (exec heapHandler p s).2.freelist = s.freelist ∧
      ∀ a, unmapped a = false → (exec heapHandler p s).2.mem a = s.mem a := by
  induction p generalizing s with
  | done a => exact ⟨rfl, fun _ _ => rfl⟩
  | panic message => exact hp.elim
  | access o k ih =>
      cases o with
      | load p => exact hp.1.elim
      | store p v =>
          obtain ⟨hhead, hmem⟩ := ih () (hp.2 ()) { s with mem := Function.update s.mem p v }
          refine ⟨hhead, fun a ha => (hmem a ha).trans (Function.update_of_ne ?_ _ _)⟩
          rintro rfl
          have hword : unmapped a = true := hp.1
          rw [ha] at hword
          cases hword
      | pop => exact hp.1.elim
      | push p => exact hp.1.elim

theorem Quits.exec_eq {p : Program (heapEffect W) α} {r : α} (hp : Quits unmapped r p) {s : Heap W}
    (hex : Exhausts p s) : (exec heapHandler p s).1 = .ok r := by
  induction p generalizing s with
  | done a => exact absurd hex (not_exhausts_done a s)
  | panic message =>
      obtain ⟨x, hx, -⟩ := hex
      cases hx
  | access o k ih =>
      obtain ⟨x, hx, hpop, hzero⟩ := hex
      rcases List.mem_cons.mp hx with rfl | hx
      · obtain rfl : o = .pop := hpop
        have hhead : s.freelist = 0 := hzero
        change (exec heapHandler (k s.freelist) _).1 = _
        rw [hhead]
        exact hp.1.exec_eq heapHandler _
      · refine ih _ ?_ ⟨x, hx, hpop, hzero⟩
        cases o with
        | load p => exact hp _
        | store p v => exact hp ()
        | pop => exact hp.2 _
        | push p => exact hp ()

end Programs

section Traps

variable {W : Type} [DecidableEq W] [Zero W] {α ι : Type} [DecidableEq ι] {L : Layout W}
  {home : ι → Set W} {s : Heap W} {shares : ι → Share W} {free : List W} {i : ι}
  {unmapped : W → Bool}

/-- The program comes back and has made all of its accesses. -/
structure Completes (unmapped : W → Bool) (p : Program (heapEffect W) α) (s : Heap W) : Prop where
  exec_eq : exec heapHandler (p.trapping (hits unmapped)) s =
    ((exec heapHandler p s).1.map some, (exec heapHandler p s).2)
  accesses_eq : accesses heapHandler (p.trapping (hits unmapped)) s = accesses heapHandler p s

theorem Completes.exhausts_iff {p : Program (heapEffect W) α} (h : Completes unmapped p s) :
    Exhausts (p.trapping (hits unmapped)) s ↔ Exhausts p s := by
  rw [Exhausts, Exhausts, h.accesses_eq]

theorem Completes.answered_iff {p : Program (heapEffect W) α} (h : Completes unmapped p s) (q : W) :
    Answered (p.trapping (hits unmapped)) s q ↔ Answered p s q := by
  rw [Answered, Answered, h.accesses_eq]

theorem Completes.exec_ok {p : Program (heapEffect W) α} (h : Completes unmapped p s) {a : α}
    {t : Heap W} (hexec : exec heapHandler p s = (.ok a, t)) :
    exec heapHandler (p.trapping (hits unmapped)) s = (.ok (some a), t) := by
  rw [h.exec_eq, hexec]
  rfl

/-- The program traps after a failed allocation, in front of the rest of its run. -/
structure Traps (unmapped : W → Bool) (p : Program (heapEffect W) α) (s : Heap W) : Prop where
  exhausts : Exhausts (p.trapping (hits unmapped)) s
  ends : ∃ rest t, exec heapHandler (p.trapping (hits unmapped)) s = (.ok none, t) ∧
    exec heapHandler p s = exec heapHandler rest t ∧
    ∀ r, Quits unmapped r p → rest.Returns (StoresTo unmapped) r

theorem Traps.result {p : Program (heapEffect W) α} (h : Traps unmapped p s) :
    (exec heapHandler (p.trapping (hits unmapped)) s).1 = .ok none := by
  obtain ⟨rest, t, htrap, -⟩ := h.ends
  rw [htrap]

/-- Where the program quits, nothing but unmapped words would have changed any more. -/
theorem Traps.agree {p : Program (heapEffect W) α} {r : α} (h : Traps unmapped p s)
    (hquits : Quits unmapped r p) :
    ∃ t, exec heapHandler (p.trapping (hits unmapped)) s = (.ok none, t) ∧
      t.freelist = (exec heapHandler p s).2.freelist ∧
      ∀ a, unmapped a = false → t.mem a = (exec heapHandler p s).2.mem a := by
  obtain ⟨rest, t, htrap, hrest, hreturns⟩ := h.ends
  obtain ⟨hhead, hmem⟩ := exec_of_returns (hreturns r hquits) t
  rw [hrest]
  exact ⟨t, htrap, hhead.symm, fun a ha => (hmem a ha).symm⟩

omit [DecidableEq ι] in
/-- What a program may access when no allocation fails is mapped. -/
theorem hits_of_ensures (hhome : Homes L home) (h : Separated L home s shares free)
    (hunmapped : ∀ a, unmapped a → a ∈ L.scratch) {o : HeapOp W}
    {k : (heapEffect W).Answer o → Program (heapEffect W) α} {Q : α → Share W → Prop}
    (hk : Ensures L False (home i) (.access o k) (shares i) Q) : hits unmapped o = false := by
  have howned : ∀ a, (shares i).Owns L (home i) a → unmapped a = false := by
    intro a ha
    rw [Bool.eq_false_iff]
    exact fun hword => h.not_owns_of_scratch hhome (hunmapped a hword) i ha
  cases o with
  | load p => exact howned p hk.1
  | store p v => exact howned p (hk.1.resolve_right fun hfails => hfails.1)
  | pop => rfl
  | push p => exact howned p (.inr ⟨p, hk.1, L.mem_block p (h.block_valid i p hk.1)⟩)

/-- Out of blocks the program traps, and else it comes back. -/
theorem exec_trapping (hhome : Homes L home) (hunmapped : ∀ a, unmapped a → a ∈ L.scratch)
    (hzero : unmapped 0) {p : Program (heapEffect W) α} {Q : α → Share W → Prop}
    (h : Separated L home s shares free) (hp : Ensures L False (home i) p (shares i) Q)
    (hwrites : WritesAnswers p) :
    (Exhausts p s ∧ Traps unmapped p s) ∨ (¬ Exhausts p s ∧ Completes unmapped p s) := by
  induction p generalizing s shares free with
  | done a => exact .inr ⟨not_exhausts_done a s, rfl, rfl⟩
  | panic message =>
      refine .inr ⟨?_, rfl, rfl⟩
      rintro ⟨x, hx, -⟩
      cases hx
  | access o k ih =>
      have htrapping : (Program.access o k).trapping (hits unmapped) =
          .access o fun r => (k r).trapping (hits unmapped) := by
        rw [Program.trapping, hits_of_ensures hhome h hunmapped hp]
        rfl
      rcases Classical.em (o = .pop ∧ s.freelist = 0) with ⟨rfl, hempty⟩ | hnot
      · -- the null pointer is the answer, and the program writes to it
        obtain ⟨⟨v, k', hfirst⟩, -⟩ := hwrites 0
        have hnext : (k 0).trapping (hits unmapped) = .done none := by
          rw [hfirst, Program.trapping, hits, hzero]
          rfl
        have hanswer : heapHandler (.pop : HeapOp W) s = (0, s) := by simp [heapHandler, hempty]
        refine .inl ⟨⟨(s, .pop), List.mem_cons_self, rfl, hempty⟩, ?_, k 0, s, ?_, ?_, ?_⟩
        · rw [htrapping]
          exact ⟨(s, .pop), List.mem_cons_self, rfl, hempty⟩
        · rw [htrapping, exec_access, hanswer, hnext]
          rfl
        · rw [exec_access, hanswer]
        · exact fun r hquits => hquits.1
      · obtain ⟨l, free', hsep, hrest, -⟩ := h.access hhome hp fun ho hempty => hnot ⟨ho, hempty⟩
        have hwrites' : WritesAnswers (k (heapHandler o s).1) := by
          cases o with
          | load p => exact hwrites _
          | store p v => exact hwrites ()
          | pop => exact (hwrites _).2
          | push p => exact hwrites ()
        have hexhausts : ∀ {γ : Type} (f : (heapEffect W).Answer o → Program (heapEffect W) γ),
            Exhausts (.access o f) s ↔ Exhausts (f (heapHandler o s).1) (heapHandler o s).2 := by
          intro γ f
          constructor
          · rintro ⟨x, hx, hpop⟩
            rcases List.mem_cons.mp hx with rfl | hx
            · exact absurd hpop hnot
            · exact ⟨x, hx, hpop⟩
          · rintro ⟨x, hx, hpop⟩
            exact ⟨x, List.mem_cons_of_mem _ hx, hpop⟩
        rw [hexhausts]
        rcases ih _ hsep (by simpa using hrest) hwrites' with
          ⟨hends, hexhausts', rest, t, htrap, hrest', hreturns⟩ | ⟨henough, hexec, haccesses⟩
        · refine .inl ⟨hends, ?_, rest, t, ?_, hrest', fun r hquits => hreturns r ?_⟩
          · rw [htrapping, hexhausts]
            exact hexhausts'
          · rw [htrapping]
            exact htrap
          · cases o with
            | load p => exact hquits _
            | store p v => exact hquits ()
            | pop => exact hquits.2 _
            | push p => exact hquits ()
        · refine .inr ⟨henough, ?_, ?_⟩
          · rw [htrapping]
            exact hexec
          · rw [htrapping]
            exact congrArg ((s, o) :: ·) haccesses

end Traps

end RiscvHypervisor.UnmappedMemory
