import RiscvHypervisor.MachineTypes
import RiscvHypervisor.TransitionSystem

/-!
The spinlock of `lib/spinlock.S`, one instruction of one hart at a time.  The
harts share the lock word and have their own registers; what they do between two
calls is left open.
-/

namespace RiscvHypervisor.Spinlock

open RiscvHypervisor.MachineTypes
open RiscvHypervisor.TransitionSystem

/-- The registers of the two routines.  `a0` holds the address of the lock. -/
inductive Reg
  | zero
  | a1
  | a2
  deriving DecidableEq, Repr

/-- Loads and swaps are of the lock word; a branch names the instruction it goes to. -/
inductive Instruction
  | li (rd : Reg) (value : Uint64)
  | lw (rd : Reg)
  | bnez (rs : Reg) (target : Nat)
  | amoswap (rd rs : Reg)
  | ret
  deriving DecidableEq, Repr

inductive Routine
  | acquire
  | release
  deriving DecidableEq, Repr

def Routine.code : Routine → List Instruction
  | .acquire => [.li .a1 1, .lw .a2, .bnez .a2 1, .amoswap .a2 .a1, .bnez .a2 1, .ret]
  | .release => [.amoswap .zero .zero, .ret]

/-- `holds` is set from the return of `acquire` to the swap of `release`. -/
structure Hart where
  place : Option (Routine × Nat)
  x : Reg → Uint64
  holds : Bool

def Hart.get (hart : Hart) (r : Reg) : Uint64 := if r = .zero then 0 else hart.x r

def Hart.set (hart : Hart) (r : Reg) (value : Uint64) : Hart :=
  { hart with x := Function.update hart.x r value }

def Hart.goto (hart : Hart) (routine : Routine) (pc : Nat) : Hart :=
  { hart with place := some (routine, pc) }

/-- The lock word and the hart after an instruction. -/
def execute (locked : Uint32) (hart : Hart) (routine : Routine) (pc : Nat) :
    Instruction → Uint32 × Hart
  | .li rd value => (locked, (hart.set rd value).goto routine (pc + 1))
  | .lw rd => (locked, (hart.set rd (locked.signExtend 64)).goto routine (pc + 1))
  | .bnez rs target => (locked, hart.goto routine (if hart.get rs ≠ 0 then target else pc + 1))
  | .amoswap rd rs =>
      ((hart.get rs).setWidth 32,
        { (hart.set rd (locked.signExtend 64)).goto routine (pc + 1) with
          holds := hart.holds && routine ≠ .release })
  | .ret => (locked, { hart with place := none, holds := hart.holds || routine = .acquire })

/-- `struct lock` and the harts that use it. -/
structure State (ι : Type) where
  locked : Uint32
  harts : ι → Hart

/-- A hart enters a routine with some values in its registers, or it executes the
next instruction of the one it is in. -/
inductive Event (ι : Type)
  | call (i : ι) (routine : Routine) (x : Reg → Uint64)
  | execute (i : ι)

variable {ι : Type} [DecidableEq ι]

/-- No hart calls `release` without holding the lock. -/
def step (s : State ι) : Event ι → Option (State ι)
  | .call i routine x =>
      let hart := s.harts i
      if hart.place = none ∧ (routine = .release → hart.holds = true) then
        some { s with harts := Function.update s.harts i ({ hart with x := x }.goto routine 0) }
      else
        none
  | .execute i =>
      match (s.harts i).place with
      | none => none
      | some (routine, pc) =>
          match routine.code[pc]? with
          | none => none
          | some instruction =>
              let (locked, hart) := execute s.locked (s.harts i) routine pc instruction
              some { locked := locked, harts := Function.update s.harts i hart }

/-- `LOCK_INITIALIZER`, before any call. -/
def Init (s : State ι) : Prop :=
  s.locked = 0 ∧ ∀ i, (s.harts i).place = none ∧ (s.harts i).holds = false

/-- The swap has returned 0 and `acquire` has not returned since. -/
def JustWon (hart : Hart) : Prop :=
  (hart.place = some (.acquire, 4) ∧ hart.x .a2 = 0) ∨ hart.place = some (.acquire, 5)

def Owner (hart : Hart) : Prop := hart.holds = true ∨ JustWon hart

/-- What a hart knows by itself: the value that it swaps in is 1, and it enters
`release` with the lock. -/
def Prepared (hart : Hart) : Prop :=
  match hart.place with
  | none => True
  | some (.acquire, pc) => pc = 0 ∨ hart.x .a1 = 1
  | some (.release, pc) => pc ≠ 0 ∨ hart.holds = true

/-- What a step does to the lock word and to the hart that takes it. -/
inductive Change (locked : Uint32) (hart : Hart) : Uint32 → Hart → Prop
  | keep {locked' : Uint32} {hart' : Hart} : (locked' = 0 ↔ locked = 0) →
      (Owner hart' ↔ Owner hart) → Prepared hart' → Change locked hart locked' hart'
  | win {locked' : Uint32} {hart' : Hart} : locked = 0 → locked' ≠ 0 → Owner hart' →
      Prepared hart' → Change locked hart locked' hart'
  | leave {locked' : Uint32} {hart' : Hart} : locked' = 0 → Owner hart → ¬ Owner hart' →
      Prepared hart' → Change locked hart locked' hart'

section Instructions

theorem signExtend_eq_zero_iff (locked : Uint32) : locked.signExtend 64 = 0#64 ↔ locked = 0#32 := by
  constructor
  · intro h
    apply BitVec.eq_of_getLsbD_eq
    intro i hi
    have hbit := congrArg (fun word : Uint64 => word.getLsbD i) h
    simp only [BitVec.getLsbD_signExtend, hi, if_true] at hbit
    simpa [Nat.lt_trans hi (by decide : 32 < 64)] using hbit
  · rintro rfl
    rfl

theorem change_acquire {locked : Uint32} {hart : Hart} {pc : Nat} {instruction : Instruction}
    (hplace : hart.place = some (.acquire, pc))
    (hcode : Routine.acquire.code[pc]? = some instruction) (hprepared : Prepared hart) :
    Change locked hart (execute locked hart .acquire pc instruction).1
      (execute locked hart .acquire pc instruction).2 := by
  rw [Prepared, hplace] at hprepared
  rcases pc with _ | _ | _ | _ | _ | _ | pc
  · -- li a1, 1
    cases hcode
    apply Change.keep Iff.rfl
    · simp [execute, Hart.goto, Hart.set, Owner, JustWon, hplace]
    · simp [execute, Hart.goto, Hart.set, Prepared]
  · -- lw a2, (a0)
    cases hcode
    apply Change.keep Iff.rfl
    · simp [execute, Hart.goto, Hart.set, Owner, JustWon, hplace]
    · simpa [execute, Hart.goto, Hart.set, Prepared] using hprepared
  · -- bnez a2, 1b
    cases hcode
    apply Change.keep Iff.rfl
    · rcases Decidable.em (hart.x .a2 = 0#64) with hzero | hne
      · simp [execute, Hart.goto, Hart.get, Owner, JustWon, hplace, hzero]
      · simp [execute, Hart.goto, Hart.get, Owner, JustWon, hplace, hne]
    · simpa [execute, Hart.goto, Prepared] using .inr (hprepared.resolve_left (by decide))
  · -- amoswap.w.aq a2, a1, (a0)
    cases hcode
    have hone : hart.x .a1 = 1 := hprepared.resolve_left (by decide)
    have hswapped : (execute locked hart .acquire 3 (.amoswap .a2 .a1)).1 ≠ 0 := by
      simp [execute, Hart.get, hone]
    have hprepared' : Prepared (execute locked hart .acquire 3 (.amoswap .a2 .a1)).2 := by
      simp [execute, Hart.goto, Hart.set, Prepared, hone]
    rcases Decidable.em (locked = 0#32) with hfree | htaken
    · apply Change.win hfree hswapped _ hprepared'
      simp [execute, Hart.goto, Hart.set, Owner, JustWon, hfree]
    · apply Change.keep (iff_of_false hswapped htaken) _ hprepared'
      simp [execute, Hart.goto, Hart.set, Owner, JustWon, hplace, signExtend_eq_zero_iff, htaken]
  · -- bnez a2, 1b
    cases hcode
    apply Change.keep Iff.rfl
    · rcases Decidable.em (hart.x .a2 = 0#64) with hzero | hne
      · simp [execute, Hart.goto, Hart.get, Owner, JustWon, hplace, hzero]
      · simp [execute, Hart.goto, Hart.get, Owner, JustWon, hplace, hne]
    · simpa [execute, Hart.goto, Prepared] using .inr (hprepared.resolve_left (by decide))
  · -- ret
    cases hcode
    apply Change.keep Iff.rfl
    · simp [execute, Owner, JustWon, hplace]
    · simp [execute, Prepared]
  · cases hcode

theorem change_release {locked : Uint32} {hart : Hart} {pc : Nat} {instruction : Instruction}
    (hplace : hart.place = some (.release, pc))
    (hcode : Routine.release.code[pc]? = some instruction) (hprepared : Prepared hart) :
    Change locked hart (execute locked hart .release pc instruction).1
      (execute locked hart .release pc instruction).2 := by
  rw [Prepared, hplace] at hprepared
  rcases pc with _ | _ | pc
  · -- amoswap.w.rl zero, zero, (a0)
    cases hcode
    apply Change.leave rfl (.inl (hprepared.resolve_left (by decide)))
    · simp [execute, Hart.goto, Owner, JustWon]
    · simp [execute, Hart.goto, Prepared]
  · -- ret
    cases hcode
    apply Change.keep Iff.rfl
    · simp [execute, Owner, JustWon, hplace]
    · simp [execute, Prepared]
  · cases hcode

/-- Every step changes one hart, in one of the three ways. -/
theorem change_of_step {s t : State ι} {event : Event ι} (hprepared : ∀ i, Prepared (s.harts i))
    (h : step s event = some t) :
    ∃ i hart', Change s.locked (s.harts i) t.locked hart' ∧
      t.harts = Function.update s.harts i hart' := by
  cases event with
  | call i routine x =>
      rw [step] at h
      split at h
      · rename_i hcall
        cases h
        refine ⟨i, _, ?_, rfl⟩
        apply Change.keep Iff.rfl
        · simp [Hart.goto, Owner, JustWon, hcall.1]
        · cases routine with
          | acquire => simp [Hart.goto, Prepared]
          | release => simpa [Hart.goto, Prepared] using hcall.2 rfl
      · cases h
  | execute i =>
      rw [step] at h
      split at h
      · cases h
      · rename_i routine pc hplace
        split at h
        · cases h
        · rename_i instruction hcode
          cases h
          refine ⟨i, _, ?_, rfl⟩
          cases routine with
          | acquire => exact change_acquire hplace hcode (hprepared i)
          | release => exact change_release hplace hcode (hprepared i)

end Instructions

section Exclusion

structure LockInv (s : State ι) : Prop where
  prepared : ∀ i, Prepared (s.harts i)
  unique : ∀ i j, Owner (s.harts i) → Owner (s.harts j) → i = j
  word : s.locked ≠ 0 ↔ ∃ i, Owner (s.harts i)

omit [DecidableEq ι] in
theorem lockInv_init {s : State ι} (h : Init s) : LockInv s := by
  have hnone : ∀ i, ¬ Owner (s.harts i) := by
    intro i
    obtain ⟨hplace, hholds⟩ := h.2 i
    simp [Owner, JustWon, hplace, hholds]
  refine ⟨fun i => ?_, fun i j hi => absurd hi (hnone i), ?_⟩
  · simp [Prepared, (h.2 i).1]
  · exact iff_of_false (not_not.mpr h.1) fun ⟨i, hi⟩ => hnone i hi

theorem lockInv_step {s t : State ι} {event : Event ι} (h : LockInv s)
    (hstep : step s event = some t) : LockInv t := by
  obtain ⟨i, hart', hchange, hharts⟩ := change_of_step h.prepared hstep
  have hself : t.harts i = hart' := by rw [hharts, Function.update_self]
  have hother : ∀ j, j ≠ i → t.harts j = s.harts j := fun j hj => by
    rw [hharts, Function.update_of_ne hj]
  have hprepared : Prepared hart' → ∀ j, Prepared (t.harts j) := by
    intro hart j
    rcases Decidable.em (j = i) with rfl | hne
    · rwa [hself]
    · rw [hother j hne]
      exact h.prepared j
  cases hchange with
  | keep hword howner hlocal =>
      have hsame : ∀ j, Owner (t.harts j) ↔ Owner (s.harts j) := by
        intro j
        rcases Decidable.em (j = i) with rfl | hne
        · rw [hself, howner]
        · rw [hother j hne]
      refine ⟨hprepared hlocal, fun j k hj hk => ?_, ?_⟩
      · exact h.unique j k ((hsame j).mp hj) ((hsame k).mp hk)
      · rw [ne_eq, hword, exists_congr hsame]
        exact h.word
  | win hfree htaken howner hlocal =>
      have honly : ∀ j, Owner (t.harts j) → j = i := by
        intro j hj
        by_contra hne
        rw [hother j hne] at hj
        exact h.word.mpr ⟨j, hj⟩ hfree
      refine ⟨hprepared hlocal, fun j k hj hk => (honly j hj).trans (honly k hk).symm, ?_⟩
      exact iff_of_true htaken ⟨i, hself ▸ howner⟩
  | leave hzero howner hleft hlocal =>
      have hnone : ∀ j, ¬ Owner (t.harts j) := by
        intro j hj
        rcases Decidable.em (j = i) with rfl | hne
        · exact hleft (hself ▸ hj)
        · rw [hother j hne] at hj
          exact hne (h.unique j i hj howner)
      refine ⟨hprepared hlocal, fun j k hj => absurd hj (hnone j), ?_⟩
      exact iff_of_false (not_not.mpr hzero) fun ⟨j, hj⟩ => hnone j hj

/-- At most one hart holds the lock, and the lock word is not zero exactly while a
hart holds it or has won it and is about to return. -/
theorem acquire_excludes {s : State ι} (h : Reachable step (fun _ _ => True) Init s) :
    (∀ i j, (s.harts i).holds = true → (s.harts j).holds = true → i = j) ∧
      (s.locked ≠ 0 ↔ ∃ i, (s.harts i).holds = true ∨ JustWon (s.harts i)) := by
  have hinv : LockInv s := h.invariant LockInv (fun _ => lockInv_init)
    fun _ _ _ hinv _ hstep => lockInv_step hinv hstep
  exact ⟨fun i j hi hj => hinv.unique i j (.inl hi) (.inl hj), hinv.word⟩

end Exclusion

section Sample

def freeLock : State (Fin 2) where
  locked := 0
  harts := fun _ => ⟨none, fun _ => 7, false⟩

/-- Both harts see the lock free; hart 0 wins it, and hart 1 swaps later and loses. -/
def contended : List (Event (Fin 2)) :=
  [.call 0 .acquire fun _ => 7, .call 1 .acquire fun _ => 7] ++
    ([0, 1, 0, 1, 0, 1, 0, 0, 0, 1].map .execute)

theorem acquire_excludes_contended :
    ∃ s, run step freeLock contended = some s ∧ (s.harts 0).holds = true ∧
      (s.harts 1).place = some (.acquire, 4) ∧ s.locked ≠ 0 ∧ (s.harts 1).holds ≠ true := by
  have hrun : run step freeLock contended = some _ := rfl
  have hstart : Reachable step (fun _ _ => True) Init freeLock := .start ⟨rfl, fun _ => ⟨rfl, rfl⟩⟩
  obtain ⟨hunique, hword⟩ := acquire_excludes (hstart.of_run (fun _ _ => trivial) hrun)
  refine ⟨_, hrun, rfl, rfl, hword.mpr ⟨0, .inl rfl⟩, fun hholds => ?_⟩
  exact absurd (hunique 1 0 hholds rfl) (by decide)

end Sample

end RiscvHypervisor.Spinlock
