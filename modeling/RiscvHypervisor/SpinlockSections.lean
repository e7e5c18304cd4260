import RiscvHypervisor.LockedSections
import RiscvHypervisor.Spinlock

/-!
Sections between `acquire` and `release` of `lib/spinlock.S`.  Each instruction of
the two routines is a step, as is each access in a section and outside of it.
-/

namespace RiscvHypervisor.SpinlockSections

open RiscvHypervisor.EffectProgram
open RiscvHypervisor.LockedSections
open RiscvHypervisor.MachineTypes
open RiscvHypervisor.Spinlock
open RiscvHypervisor.TransitionSystem

variable {E : Effect} {τ : Type}

/-- Where a hart is in its program.  While it is in `acquire` or in `release`, its
place in the routine is kept with the lock. -/
inductive Phase (S : Sections E τ) (α : Type) : Type
  | program (p : Program E α)
  | acquiring (o : E.Op) (code : S.Code o) (k : E.Answer o → Program E α)
  | section (o : E.Op) (code : S.Code o) (k : E.Answer o → Program E α)
  | releasing (p : Program E α)

structure SpinMachine (S : Sections E τ) (α ι : Type) where
  lock : State ι
  phases : ι → Phase S α
  shared : τ

variable {S : Sections E τ} {α ι ε : Type} [DecidableEq ι]

/-- The phase after the return from a routine. -/
def Phase.returned : Phase S α → Phase S α
  | .program p => .program p
  | .acquiring o code k => .section o code k
  | .section o code k => .section o code k
  | .releasing p => .program p

/-- The next instruction of a hart in one of the routines. -/
def lockStep (c : SpinMachine S α ι) (i : ι) : Option (SpinMachine S α ι) :=
  (Spinlock.step c.lock (.execute i)).map fun lock =>
    { lock := lock
      phases :=
        if (lock.harts i).place = none then
          Function.update c.phases i (c.phases i).returned
        else
          c.phases
      shared := c.shared }

/-- The hart enters a routine with `x` in its registers. -/
def callStep (c : SpinMachine S α ι) (i : ι) (x : Reg → Uint64) (routine : Routine)
    (phase : Phase S α) (s : τ) : Option (SpinMachine S α ι) :=
  (Spinlock.step c.lock (.call i routine x)).map fun lock =>
    { lock := lock
      phases := Function.update c.phases i phase
      shared := s }

def SpinMachine.move (c : SpinMachine S α ι) (i : ι) (phase : Phase S α) (s : τ) :
    SpinMachine S α ι where
  lock := c.lock
  phases := Function.update c.phases i phase
  shared := s

/-- One step of a hart. -/
def hartStep (c : SpinMachine S α ι) (i : ι) (x : Reg → Uint64) : Option (SpinMachine S α ι) :=
  match (c.lock.harts i).place with
  | some _ => lockStep c i
  | none =>
      match c.phases i with
      | .program (.done _) => none
      | .program (.panic _) => none
      | .program (.access o k) =>
          match S.start o with
          | none => some (c.move i (.program (k (S.direct o c.shared).1)) (S.direct o c.shared).2)
          | some code => callStep c i x .acquire (.acquiring o code k) c.shared
      | .acquiring _ _ _ => none
      | .section o code k =>
          match S.next o code c.shared with
          | (.inl code', s) => some (c.move i (.section o code' k) s)
          | (.inr a, s) => callStep c i x .release (.releasing (k a)) s
      | .releasing _ => none

def spinStep (S : Sections E τ) (env : ε → τ → τ) (c : SpinMachine S α ι) :
    (ι × (Reg → Uint64)) ⊕ ε → Option (SpinMachine S α ι)
  | .inl (i, x) => hartStep c i x
  | .inr e => some { c with shared := env e c.shared }

/-- The programs before their first step, the lock free. -/
def SpinMachine.initial (S : Sections E τ) (programs : ι → Program E α) (s : τ) :
    SpinMachine S α ι where
  lock :=
    { locked := 0
      harts := fun _ => ⟨none, fun _ => 0, false⟩ }
  phases i := .program (programs i)
  shared := s

/-- The hart is in `acquire` and has not won the lock. -/
def Spinning (hart : Hart) : Prop :=
  (∃ pc ≤ 4, hart.place = some (.acquire, pc)) ∧ ¬ Owner hart

/-- What an instruction does to the place of a hart. -/
inductive LockMove (locked : Uint32) (hart : Hart) (locked' : Uint32) (hart' : Hart) : Prop
  | spin : Spinning hart → Spinning hart' → LockMove locked hart locked' hart'
  | win : Spinning hart → locked = 0 → JustWon hart' → hart'.holds = false →
      LockMove locked hart locked' hart'
  | won : JustWon hart → JustWon hart' → hart'.holds = hart.holds →
      LockMove locked hart locked' hart'
  | acquired : JustWon hart → hart'.place = none → hart'.holds = true →
      LockMove locked hart locked' hart'
  | release : hart.place = some (.release, 0) → hart'.place = some (.release, 1) →
      hart'.holds = false → LockMove locked hart locked' hart'
  | left : hart.place = some (.release, 1) → hart'.place = none → hart'.holds = hart.holds →
      LockMove locked hart locked' hart'

theorem lockMove_acquire {locked : Uint32} {hart : Hart} {pc : Nat} {instruction : Instruction}
    (hplace : hart.place = some (.acquire, pc)) (hholds : hart.holds = false)
    (hcode : Routine.acquire.code[pc]? = some instruction) :
    LockMove locked hart (execute locked hart .acquire pc instruction).1
      (execute locked hart .acquire pc instruction).2 := by
  have hnot : ∀ pc' : Nat, pc' ≤ 3 → hart.place = some (.acquire, pc') → Spinning hart := by
    intro pc' hle hpc
    refine ⟨⟨pc', by omega, hpc⟩, ?_⟩
    simp only [Owner, JustWon, hpc, hholds, Option.some.injEq, Prod.mk.injEq]
    rintro (hfalse | ⟨⟨-, heq⟩, -⟩ | ⟨-, heq⟩)
    · cases hfalse
    · omega
    · omega
  rcases pc with _ | _ | _ | _ | _ | _ | pc
  · -- li a1, 1
    cases hcode
    apply LockMove.spin (hnot 0 (by decide) hplace)
    simp [Spinning, execute, Hart.goto, Hart.set, Owner, JustWon, hholds]
  · -- lw a2, (a0)
    cases hcode
    apply LockMove.spin (hnot 1 (by decide) hplace)
    simp [Spinning, execute, Hart.goto, Hart.set, Owner, JustWon, hholds]
  · -- bnez a2, 1b
    cases hcode
    apply LockMove.spin (hnot 2 (by decide) hplace)
    rcases Decidable.em (hart.x .a2 = 0#64) with hzero | hne
    · simp [Spinning, execute, Hart.goto, Hart.get, Owner, JustWon, hholds, hzero]
    · simp [Spinning, execute, Hart.goto, Hart.get, Owner, JustWon, hholds, hne]
  · -- amoswap.w.aq a2, a1, (a0)
    cases hcode
    have hspinning := hnot 3 (by decide) hplace
    rcases Decidable.em (locked = 0#32) with hfree | htaken
    · apply LockMove.win hspinning hfree
      · simp [execute, Hart.goto, Hart.set, JustWon, hfree]
      · simp [execute, Hart.goto, Hart.set, hholds]
    · apply LockMove.spin hspinning
      simp [Spinning, execute, Hart.goto, Hart.set, Owner, JustWon, hholds, signExtend_eq_zero_iff,
        htaken]
  · -- bnez a2, 1b
    cases hcode
    rcases Decidable.em (hart.x .a2 = 0#64) with hzero | hne
    · apply LockMove.won (.inl ⟨hplace, hzero⟩)
      · simp [execute, Hart.goto, Hart.get, JustWon, hzero]
      · rfl
    · have hspinning : Spinning hart := by
        refine ⟨⟨4, by decide, hplace⟩, ?_⟩
        simp [Owner, JustWon, hplace, hholds, hne]
      apply LockMove.spin hspinning
      simp [Spinning, execute, Hart.goto, Hart.get, Owner, JustWon, hholds, hne]
  · -- ret
    cases hcode
    apply LockMove.acquired (.inr hplace)
    · rfl
    · simp [execute]
  · cases hcode

theorem lockMove_release {locked : Uint32} {hart : Hart} {pc : Nat} {instruction : Instruction}
    (hplace : hart.place = some (.release, pc))
    (hcode : Routine.release.code[pc]? = some instruction) :
    LockMove locked hart (execute locked hart .release pc instruction).1
      (execute locked hart .release pc instruction).2 := by
  rcases pc with _ | _ | pc
  · -- amoswap.w.rl zero, zero, (a0)
    cases hcode
    apply LockMove.release hplace
    · rfl
    · simp [execute, Hart.goto]
  · -- ret
    cases hcode
    apply LockMove.left hplace
    · rfl
    · simp [execute]
  · cases hcode

/-- The phase of a hart with the instructions of the lock left out. -/
inductive Shows (S : Sections E τ) (hart : Hart) : Phase S α → Stage S α → Prop
  | program {p : Program E α} : hart.place = none → hart.holds = false →
      Shows S hart (.program p) (.outside p)
  | spinning {o : E.Op} {code : S.Code o} {k : E.Answer o → Program E α} :
      S.start o = some code → Spinning hart →
      Shows S hart (.acquiring o code k) (.outside (.access o k))
  | won {o : E.Op} {code : S.Code o} {k : E.Answer o → Program E α} : JustWon hart →
      hart.holds = false → Shows S hart (.acquiring o code k) (.inside o code k)
  | inside {o : E.Op} {code : S.Code o} {k : E.Answer o → Program E α} : hart.place = none →
      hart.holds = true → Shows S hart (.section o code k) (.inside o code k)
  | closing {p : Program E α} : hart.place = some (.release, 0) → hart.holds = true →
      Shows S hart (.releasing p) (.closing p)
  | left {p : Program E α} : hart.place = some (.release, 1) → hart.holds = false →
      Shows S hart (.releasing p) (.outside p)

theorem Spinning.holds {hart : Hart} (h : Spinning hart) : hart.holds = false :=
  Bool.eq_false_iff.mpr fun hholds => h.2 (.inl hholds)

theorem place_of_justWon {hart : Hart} (h : JustWon hart) :
    ∃ pc, hart.place = some (.acquire, pc) := by
  rcases h with ⟨hplace, -⟩ | hplace
  · exact ⟨4, hplace⟩
  · exact ⟨5, hplace⟩

theorem Shows.owner_iff {hart : Hart} {phase : Phase S α} {stage : Stage S α}
    (h : Shows S hart phase stage) : stage.HasLock ↔ Owner hart := by
  cases h with
  | program hplace hholds => simp [Stage.HasLock, Owner, JustWon, hplace, hholds]
  | spinning _ hspinning => exact iff_of_false (fun hlock => hlock) hspinning.2
  | won hwon _ => exact iff_of_true trivial (.inr hwon)
  | inside _ hholds => exact iff_of_true trivial (.inl hholds)
  | closing _ hholds => exact iff_of_true trivial (.inl hholds)
  | left hplace hholds => simp [Stage.HasLock, Owner, JustWon, hplace, hholds]

section Inversion

variable {hart : Hart} {phase : Phase S α} {stage : Stage S α}

theorem Shows.of_acquire (h : Shows S hart phase stage) {pc : Nat}
    (hplace : hart.place = some (.acquire, pc)) : ∃ o code k, phase = .acquiring o code k ∧
      ((S.start o = some code ∧ Spinning hart ∧ stage = .outside (.access o k)) ∨
        (JustWon hart ∧ hart.holds = false ∧ stage = .inside o code k)) := by
  cases h with
  | program hnone _ => exact absurd (hnone.symm.trans hplace) (by simp)
  | spinning hstart hspinning => exact ⟨_, _, _, rfl, .inl ⟨hstart, hspinning, rfl⟩⟩
  | won hwon hholds => exact ⟨_, _, _, rfl, .inr ⟨hwon, hholds, rfl⟩⟩
  | inside hnone _ => exact absurd (hnone.symm.trans hplace) (by simp)
  | closing hrelease _ => exact absurd (hrelease.symm.trans hplace) (by simp)
  | left hrelease _ => exact absurd (hrelease.symm.trans hplace) (by simp)

theorem Shows.of_spinning (h : Shows S hart phase stage) (hspinning : Spinning hart) :
    ∃ o code k, S.start o = some code ∧ phase = .acquiring o code k ∧
      stage = .outside (.access o k) := by
  obtain ⟨pc, -, hplace⟩ := hspinning.1
  obtain ⟨o, code, k, rfl, ⟨hstart, -, rfl⟩ | ⟨hwon, -, -⟩⟩ := h.of_acquire hplace
  · exact ⟨o, code, k, hstart, rfl, rfl⟩
  · exact absurd (.inr hwon) hspinning.2

theorem Shows.of_justWon (h : Shows S hart phase stage) (hwon : JustWon hart) :
    ∃ o code k, phase = .acquiring o code k ∧ stage = .inside o code k ∧ hart.holds = false := by
  obtain ⟨pc, hplace⟩ := place_of_justWon hwon
  obtain ⟨o, code, k, rfl, ⟨-, hspinning, -⟩ | ⟨-, hholds, rfl⟩⟩ := h.of_acquire hplace
  · exact absurd (.inr hwon) hspinning.2
  · exact ⟨o, code, k, rfl, rfl, hholds⟩

theorem Shows.of_release (h : Shows S hart phase stage) {pc : Nat}
    (hplace : hart.place = some (.release, pc)) : ∃ p, phase = .releasing p ∧
      ((pc = 0 ∧ hart.holds = true ∧ stage = .closing p) ∨
        (pc = 1 ∧ hart.holds = false ∧ stage = .outside p)) := by
  cases h with
  | program hnone _ => exact absurd (hnone.symm.trans hplace) (by simp)
  | spinning _ hspinning =>
      obtain ⟨pc', -, hpc⟩ := hspinning.1
      exact absurd (hpc.symm.trans hplace) (by simp)
  | won hwon _ =>
      obtain ⟨pc', hpc⟩ := place_of_justWon hwon
      exact absurd (hpc.symm.trans hplace) (by simp)
  | inside hnone _ => exact absurd (hnone.symm.trans hplace) (by simp)
  | @closing p hrelease hholds =>
      cases hrelease.symm.trans hplace
      exact ⟨p, rfl, .inl ⟨rfl, hholds, rfl⟩⟩
  | @left p hrelease hholds =>
      cases hrelease.symm.trans hplace
      exact ⟨p, rfl, .inr ⟨rfl, hholds, rfl⟩⟩

theorem Shows.of_none (h : Shows S hart phase stage) (hplace : hart.place = none) :
    (∃ p, phase = .program p ∧ stage = .outside p ∧ hart.holds = false) ∨
      ∃ o code k, phase = .section o code k ∧ stage = .inside o code k ∧ hart.holds = true := by
  cases h with
  | @program p _ hholds => exact .inl ⟨p, rfl, rfl, hholds⟩
  | spinning _ hspinning =>
      obtain ⟨pc, -, hpc⟩ := hspinning.1
      exact absurd (hpc.symm.trans hplace) (by simp)
  | won hwon _ =>
      obtain ⟨pc, hpc⟩ := place_of_justWon hwon
      exact absurd (hpc.symm.trans hplace) (by simp)
  | @inside o code k _ hholds => exact .inr ⟨o, code, k, rfl, rfl, hholds⟩
  | closing hrelease _ => exact absurd (hplace.symm.trans hrelease) (by simp)
  | left hrelease _ => exact absurd (hplace.symm.trans hrelease) (by simp)

end Inversion

/-- The two machines are at the same point. -/
structure Mirrors (c : SpinMachine S α ι) (d : Machine S α ι) : Prop where
  lock : LockInv c.lock
  shows : ∀ i, Shows S (c.lock.harts i) (c.phases i) (d.stages i)
  exclusive : d.Exclusive
  shared : c.shared = d.shared

namespace Mirrors

variable {c : SpinMachine S α ι} {d : Machine S α ι}

omit [DecidableEq ι] in
theorem initial (S : Sections E τ) (programs : ι → Program E α) (s : τ) :
    Mirrors (SpinMachine.initial S programs s) (.initial S programs s) where
  lock := lockInv_init ⟨rfl, fun _ => ⟨rfl, rfl⟩⟩
  shows _ := .program rfl rfl
  exclusive i := by simp [Machine.initial, Stage.HasLock]
  shared := rfl

/-- One hart goes on, in its routine or its program, and so does its thread. -/
theorem move (h : Mirrors c d) {i : ι} {lock : State ι} {hart : Hart} {phase : Phase S α}
    {stage : Stage S α} (owner : Option ι) (s : τ) (hlock : LockInv lock)
    (hharts : lock.harts = Function.update c.lock.harts i hart) (hshows : Shows S hart phase stage)
    (hexclusive : (d.move i stage owner s).Exclusive) :
    Mirrors ⟨lock, Function.update c.phases i phase, s⟩ (d.move i stage owner s) where
  lock := hlock
  shows j := by
    rcases eq_or_ne j i with rfl | hne
    · simpa [hharts, Machine.move] using hshows
    · simpa [hharts, Machine.move, hne] using h.shows j
  exclusive := hexclusive
  shared := rfl

theorem move_self (d : Machine S α ι) (i : ι) :
    d.move i (d.stages i) d.owner d.shared = d := by
  rw [Machine.move, Function.update_eq_self]

/-- The hart goes on, and its thread stays where it is. -/
theorem stay (h : Mirrors c d) {i : ι} {lock : State ι} {hart : Hart} {phase : Phase S α}
    (hlock : LockInv lock) (hharts : lock.harts = Function.update c.lock.harts i hart)
    (hshows : Shows S hart phase (d.stages i)) :
    Mirrors ⟨lock, Function.update c.phases i phase, c.shared⟩ d := by
  have hmove := h.move d.owner d.shared hlock hharts hshows
    (by rw [move_self]; exact h.exclusive)
  rwa [move_self, ← h.shared] at hmove

omit [DecidableEq ι] in
theorem owner_eq_none (h : Mirrors c d) (hfree : c.lock.locked = 0) : d.owner = none := by
  cases howner : d.owner with
  | none => rfl
  | some i =>
      have howns := (h.shows i).owner_iff.mp ((h.exclusive i).mp howner)
      exact absurd hfree (h.lock.word.mpr ⟨i, howns⟩)

omit [DecidableEq ι] in
theorem stage_of_program (h : Mirrors c d) {i : ι} {p : Program E α}
    (hphase : c.phases i = .program p) : d.stages i = .outside p := by
  have hshows := h.shows i
  rw [hphase] at hshows
  generalize d.stages i = stage at hshows
  cases hshows
  rfl

omit [DecidableEq ι] in
theorem locked_eq_zero (h : Mirrors c d) (hfree : d.owner = none) : c.lock.locked = 0 := by
  by_contra hlocked
  obtain ⟨i, howns⟩ := h.lock.word.mp hlocked
  have howner := (h.exclusive i).mpr ((h.shows i).owner_iff.mpr howns)
  rw [hfree] at howner
  cases howner

end Mirrors

theorem ite_update {β : Type} (p : Prop) [Decidable p] (f : ι → β) (i : ι) (y : β) :
    (if p then Function.update f i y else f) = Function.update f i (if p then y else f i) := by
  split
  · rfl
  · rw [Function.update_eq_self]

/-- An instruction of a routine, by what it does to the place of the hart. -/
theorem lockMove_of_lockStep {c c' : SpinMachine S α ι} {i : ι} {phase : Phase S α}
    {stage : Stage S α} (hshows : Shows S (c.lock.harts i) phase stage)
    (hstep : lockStep c i = some c') :
    ∃ lock hart, LockMove c.lock.locked (c.lock.harts i) lock.locked hart ∧
      Spinlock.step c.lock (.execute i) = some lock ∧
      lock.harts = Function.update c.lock.harts i hart ∧
      c' = ⟨lock, Function.update c.phases i
        (if hart.place = none then (c.phases i).returned else c.phases i), c.shared⟩ := by
  rw [lockStep, Option.map_eq_some_iff] at hstep
  obtain ⟨lock, hlock, rfl⟩ := hstep
  have hexecute := hlock
  rw [Spinlock.step] at hexecute
  split at hexecute
  · cases hexecute
  · rename_i routine pc hplace
    split at hexecute
    · cases hexecute
    · rename_i instruction hcode
      cases hexecute
      refine ⟨_, _, ?_, hlock, rfl, ?_⟩
      · cases routine with
        | acquire =>
            apply lockMove_acquire hplace _ hcode
            cases hshows with
            | program hnone _ => exact absurd (hnone.symm.trans hplace) (by simp)
            | spinning _ hspinning => exact hspinning.holds
            | won _ hholds => exact hholds
            | inside hnone _ => exact absurd (hnone.symm.trans hplace) (by simp)
            | closing hrelease _ => exact absurd (hrelease.symm.trans hplace) (by simp)
            | left hrelease _ => exact absurd (hrelease.symm.trans hplace) (by simp)
        | release => exact lockMove_release hplace hcode
      · simp only [Function.update_self, ite_update]

namespace Mirrors

variable {env : ε → τ → τ} {c c' : SpinMachine S α ι} {d : Machine S α ι} {i : ι}

/-- The swap that finds the lock free begins the section, the swap of `release` ends
it, and nothing else in the two routines can be seen. -/
theorem of_lockStep (h : Mirrors c d) (hstep : lockStep c i = some c') :
    ∃ d', Leads (machineStep S env) d d' ∧ Mirrors c' d' := by
  have hshows := h.shows i
  obtain ⟨lock, hart, hmove, hlock, hharts, rfl⟩ := lockMove_of_lockStep hshows hstep
  have hinv : LockInv lock := lockInv_step h.lock hlock
  have hshape : ∀ phase : Phase S α,
      (if hart.place = none then (c.phases i).returned else c.phases i) = phase →
      (Shows S hart phase (d.stages i) ∨ ∃ stage owner, threadStep d i =
          some (d.move i stage owner d.shared) ∧ Shows S hart phase stage) →
      ∃ d', Leads (machineStep S env) d d' ∧
        Mirrors ⟨lock, Function.update c.phases i
          (if hart.place = none then (c.phases i).returned else c.phases i), c.shared⟩ d' := by
    rintro _ rfl (hstill | ⟨stage, owner, hthread, hnext⟩)
    · exact ⟨d, .refl d, h.stay hinv hharts hstill⟩
    · have hleads : machineStep S env d (.inl i) = some (d.move i stage owner d.shared) := hthread
      refine ⟨_, .single hleads, ?_⟩
      rw [h.shared]
      exact h.move owner d.shared hinv hharts hnext (exclusive_of_machineStep h.exclusive hleads)
  cases hmove with
  | spin hbefore hafter =>
      obtain ⟨o, code, k, hstart, hphase, hstage⟩ := hshows.of_spinning hbefore
      obtain ⟨pc, -, hplace⟩ := hafter.1
      apply hshape (.acquiring o code k) (by rw [hplace, hphase]; rfl)
      rw [hstage]
      exact .inl (.spinning hstart hafter)
  | win hbefore hfree hwon hholds =>
      obtain ⟨o, code, k, hstart, hphase, hstage⟩ := hshows.of_spinning hbefore
      obtain ⟨pc, hplace⟩ := place_of_justWon hwon
      apply hshape (.acquiring o code k) (by rw [hplace, hphase]; rfl)
      refine .inr ⟨.inside o code k, some i, ?_, .won hwon hholds⟩
      simp only [threadStep, hstage, hstart, h.owner_eq_none hfree]
  | won hbefore hafter hholds =>
      obtain ⟨o, code, k, hphase, hstage, hnot⟩ := hshows.of_justWon hbefore
      obtain ⟨pc, hplace⟩ := place_of_justWon hafter
      apply hshape (.acquiring o code k) (by rw [hplace, hphase]; rfl)
      rw [hstage]
      exact .inl (.won hafter (hholds.trans hnot))
  | acquired hbefore hplace hholds =>
      obtain ⟨o, code, k, hphase, hstage, -⟩ := hshows.of_justWon hbefore
      apply hshape (.section o code k) (by rw [if_pos hplace, hphase]; rfl)
      rw [hstage]
      exact .inl (.inside hplace hholds)
  | release hbefore hplace hholds =>
      obtain ⟨p, hphase, ⟨-, -, hstage⟩ | ⟨hpc, -, -⟩⟩ := hshows.of_release hbefore
      · apply hshape (.releasing p) (by rw [hplace, hphase]; rfl)
        refine .inr ⟨.outside p, none, ?_, .left hplace hholds⟩
        simp only [threadStep, hstage]
      · cases hpc
  | left hbefore hplace hholds =>
      obtain ⟨p, hphase, ⟨hpc, -, -⟩ | ⟨-, hnot, hstage⟩⟩ := hshows.of_release hbefore
      · cases hpc
      · apply hshape (.program p) (by rw [if_pos hplace, hphase]; rfl)
        rw [hstage]
        exact .inl (.program hplace (hholds.trans hnot))

theorem of_callStep (h : Mirrors c d) {x : Reg → Uint64} {routine : Routine} {phase : Phase S α}
    {s : τ} (hstep : callStep c i x routine phase s = some c') :
    ∃ lock, LockInv lock ∧ lock.harts = Function.update c.lock.harts i
        (({ c.lock.harts i with x := x } : Hart).goto routine 0) ∧
      c' = ⟨lock, Function.update c.phases i phase, s⟩ := by
  rw [callStep, Option.map_eq_some_iff] at hstep
  obtain ⟨lock, hlock, rfl⟩ := hstep
  refine ⟨lock, lockInv_step h.lock hlock, ?_, rfl⟩
  rw [Spinlock.step] at hlock
  split at hlock
  · cases hlock
    rfl
  · cases hlock

/-- A hart outside the routines does what its thread does; the calls cannot be seen. -/
theorem of_hartStep (h : Mirrors c d) {x : Reg → Uint64} (hstep : hartStep c i x = some c') :
    ∃ d', Leads (machineStep S env) d d' ∧ Mirrors c' d' := by
  cases hplace : (c.lock.harts i).place with
  | some place =>
      rw [hartStep, hplace] at hstep
      exact h.of_lockStep hstep
  | none =>
      have hsame : c.lock.harts = Function.update c.lock.harts i (c.lock.harts i) := by
        rw [Function.update_eq_self]
      have hgo : ∀ (owner : Option ι) {stage : Stage S α} {s : τ} {phase : Phase S α}
          {lock : State ι} {hart : Hart}, threadStep d i = some (d.move i stage owner s) →
          LockInv lock → lock.harts = Function.update c.lock.harts i hart →
          Shows S hart phase stage → ∃ d', Leads (machineStep S env) d d' ∧
            Mirrors ⟨lock, Function.update c.phases i phase, s⟩ d' := by
        intro owner stage s phase lock hart hthread hinv hharts hnext
        have hleads : machineStep S env d (.inl i) = some (d.move i stage owner s) := hthread
        exact ⟨_, .single hleads,
          h.move owner s hinv hharts hnext (exclusive_of_machineStep h.exclusive hleads)⟩
      rcases (h.shows i).of_none hplace with
        ⟨p, hphase, hstage, hholds⟩ | ⟨o, code, k, hphase, hstage, hholds⟩
      · simp only [hartStep, hplace, hphase] at hstep
        cases p with
        | done a => cases hstep
        | panic message => cases hstep
        | access o k =>
            cases hstart : S.start o with
            | none =>
                simp only [hstart, Option.some.injEq] at hstep
                subst hstep
                rw [h.shared]
                apply hgo d.owner _ h.lock hsame (.program hplace hholds)
                simp only [threadStep, hstage, hstart]
            | some code =>
                simp only [hstart] at hstep
                obtain ⟨lock, hinv, hharts, rfl⟩ := h.of_callStep hstep
                refine ⟨d, .refl d, h.stay hinv hharts ?_⟩
                rw [hstage]
                apply Shows.spinning hstart
                simp [Spinning, Hart.goto, Owner, JustWon, hholds]
      · simp only [hartStep, hplace, hphase, h.shared] at hstep
        split at hstep
        · rename_i code' s hnext
          cases hstep
          apply hgo d.owner _ h.lock hsame (.inside hplace hholds)
          simp only [threadStep, hstage, hnext]
        · rename_i a s hnext
          obtain ⟨lock, hinv, hharts, rfl⟩ := h.of_callStep hstep
          apply hgo d.owner _ hinv hharts (.closing rfl hholds)
          simp only [threadStep, hstage, hnext]

/-- Every step is a step of the machine with a lock that is taken at once, or none. -/
theorem of_spinStep (h : Mirrors c d) {label : (ι × (Reg → Uint64)) ⊕ ε}
    (hstep : spinStep S env c label = some c') :
    ∃ d', Leads (machineStep S env) d d' ∧ Mirrors c' d' := by
  rcases label with ⟨i, x⟩ | e
  · exact h.of_hartStep hstep
  · cases hstep
    have hleads : machineStep S env d (.inr e) = some { d with shared := env e d.shared } := rfl
    exact ⟨_, .single hleads, h.lock, h.shows, h.exclusive, congrArg (env e) h.shared⟩

/-- An instruction that the thread does not see, and the hart after it. -/
theorem exists_execute (env : ε → τ → τ) (h : Mirrors c d) {routine : Routine} {pc : Nat}
    (instruction : Instruction) (phase : Phase S α)
    (hplace : (c.lock.harts i).place = some (routine, pc))
    (hcode : routine.code[pc]? = some instruction) {hart : Hart}
    (hhart : (execute c.lock.locked (c.lock.harts i) routine pc instruction).2 = hart)
    (hphase : (if hart.place = none then (c.phases i).returned else c.phases i) = phase)
    (hshows : Shows S hart phase (d.stages i)) :
    ∃ c', Leads (spinStep S env) c c' ∧ Mirrors c' d ∧ c'.lock.harts i = hart ∧
      c'.phases = Function.update c.phases i phase := by
  have hlock : Spinlock.step c.lock (.execute i) =
      some ⟨(execute c.lock.locked (c.lock.harts i) routine pc instruction).1,
        Function.update c.lock.harts i hart⟩ := by
    simp only [Spinlock.step, hplace, hcode, hhart]
  have hstep : lockStep c i = some
      ⟨⟨(execute c.lock.locked (c.lock.harts i) routine pc instruction).1,
        Function.update c.lock.harts i hart⟩, Function.update c.phases i phase, c.shared⟩ := by
    simp only [lockStep, hlock, Option.map_some, ite_update, Function.update_self, hphase]
  refine ⟨_, .single (l := .inl (i, fun _ => 0)) ?_, h.stay (lockInv_step h.lock hlock) rfl hshows,
    Function.update_self _ _ _, rfl⟩
  simpa only [spinStep, hartStep, hplace] using hstep

section Winning

variable (env) {o : E.Op} {code : S.Code o} {k : E.Answer o → Program E α}
  (hstart : S.start o = some code) (hstage : d.stages i = .outside (.access o k))
  (hfree : d.owner = none)

include hstart hstage hfree

theorem exists_won_of_swap (h : Mirrors c d) (hplace : (c.lock.harts i).place = some (.acquire, 3))
    (hholds : (c.lock.harts i).holds = false) (hphase : c.phases i = .acquiring o code k) :
    ∃ c', Leads (spinStep S env) c c' ∧
      Mirrors c' (d.move i (.inside o code k) (some i) d.shared) := by
  have hlocked := h.locked_eq_zero hfree
  have henter : machineStep S env d (.inl i) =
      some (d.move i (.inside o code k) (some i) d.shared) := by
    simp only [machineStep, threadStep, hstage, hstart, hfree]
  have hlock : Spinlock.step c.lock (.execute i) = some
      ⟨(execute c.lock.locked (c.lock.harts i) .acquire 3 (.amoswap .a2 .a1)).1,
        Function.update c.lock.harts i
          (execute c.lock.locked (c.lock.harts i) .acquire 3 (.amoswap .a2 .a1)).2⟩ := by
    simp only [Spinlock.step, hplace]
    rfl
  have hshows : Shows S (execute c.lock.locked (c.lock.harts i) .acquire 3 (.amoswap .a2 .a1)).2
      (.acquiring o code k) (.inside o code k) := by
    apply Shows.won
    · simp [execute, Hart.goto, Hart.set, JustWon, hlocked]
    · simp [execute, Hart.goto, Hart.set, hholds]
  have hmirrors := h.move (some i) d.shared (lockInv_step h.lock hlock) rfl hshows
    (exclusive_of_machineStep h.exclusive henter)
  refine ⟨_, .single (l := .inl (i, fun _ => 0)) ?_, hmirrors⟩
  simp only [spinStep, hartStep, hplace, lockStep, hlock, Option.map_some, ite_update,
    Function.update_self, hphase, h.shared]
  rfl

theorem exists_won_of_test (h : Mirrors c d) (hplace : (c.lock.harts i).place = some (.acquire, 2))
    (hzero : (c.lock.harts i).x .a2 = 0) (hholds : (c.lock.harts i).holds = false)
    (hphase : c.phases i = .acquiring o code k) :
    ∃ c', Leads (spinStep S env) c c' ∧
      Mirrors c' (d.move i (.inside o code k) (some i) d.shared) := by
  obtain ⟨c₁, hleads, h₁, hhart, hphase₁⟩ := h.exists_execute env (.bnez .a2 1)
    (.acquiring o code k) hplace rfl rfl (by simpa [execute, Hart.goto] using hphase) (by
      rw [hstage]
      apply Shows.spinning hstart
      simp [Spinning, execute, Hart.goto, Hart.get, Owner, JustWon, hholds, hzero])
  obtain ⟨c₂, hrest, h₂⟩ := h₁.exists_won_of_swap env hstart hstage hfree
    (by simp [hhart, execute, Hart.goto, Hart.get, hzero])
    (by simp [hhart, execute, Hart.goto, hholds]) (by simp [hphase₁])
  exact ⟨c₂, hleads.trans hrest, h₂⟩

theorem exists_won_of_load (h : Mirrors c d) (hplace : (c.lock.harts i).place = some (.acquire, 1))
    (hholds : (c.lock.harts i).holds = false) (hphase : c.phases i = .acquiring o code k) :
    ∃ c', Leads (spinStep S env) c c' ∧
      Mirrors c' (d.move i (.inside o code k) (some i) d.shared) := by
  have hlocked := h.locked_eq_zero hfree
  obtain ⟨c₁, hleads, h₁, hhart, hphase₁⟩ := h.exists_execute env (.lw .a2)
    (.acquiring o code k) hplace rfl rfl (by simpa [execute, Hart.goto] using hphase) (by
      rw [hstage]
      apply Shows.spinning hstart
      simp [Spinning, execute, Hart.goto, Hart.set, Owner, JustWon, hholds])
  obtain ⟨c₂, hrest, h₂⟩ := h₁.exists_won_of_test env hstart hstage hfree
    (by simp [hhart, execute, Hart.goto]) (by simp [hhart, execute, Hart.goto, Hart.set, hlocked])
    (by simp [hhart, execute, Hart.goto, Hart.set, hholds]) (by simp [hphase₁])
  exact ⟨c₂, hleads.trans hrest, h₂⟩

/-- With the lock free, a hart that spins wins it when the others wait. -/
theorem exists_won (h : Mirrors c d) (hspinning : Spinning (c.lock.harts i))
    (hphase : c.phases i = .acquiring o code k) :
    ∃ c', Leads (spinStep S env) c c' ∧
      Mirrors c' (d.move i (.inside o code k) (some i) d.shared) := by
  have hholds := hspinning.holds
  obtain ⟨⟨pc, hle, hplace⟩, hnot⟩ := hspinning
  -- back to the load, or on to it
  have hload : ∀ instruction, Routine.acquire.code[pc]? = some instruction →
      (execute c.lock.locked (c.lock.harts i) .acquire pc instruction).2.place =
        some (.acquire, 1) →
      (execute c.lock.locked (c.lock.harts i) .acquire pc instruction).2.holds = false →
      ∃ c', Leads (spinStep S env) c c' ∧
        Mirrors c' (d.move i (.inside o code k) (some i) d.shared) := by
    intro instruction hcode hnext hholds'
    obtain ⟨c₁, hleads, h₁, hhart, hphase₁⟩ := h.exists_execute env instruction
      (.acquiring o code k) hplace hcode rfl (by rw [hnext, hphase]; rfl) (by
        rw [hstage]
        apply Shows.spinning hstart
        simp [Spinning, Owner, JustWon, hnext, hholds'])
    obtain ⟨c₂, hrest, h₂⟩ := h₁.exists_won_of_load env hstart hstage hfree
      (by rw [hhart, hnext]) (by rw [hhart, hholds']) (by simp [hphase₁])
    exact ⟨c₂, hleads.trans hrest, h₂⟩
  rcases pc with _ | _ | _ | _ | _ | _ | pc
  · exact hload _ rfl rfl hholds
  · exact h.exists_won_of_load env hstart hstage hfree hplace hholds hphase
  · rcases Decidable.em ((c.lock.harts i).x .a2 = 0#64) with hzero | hne
    · exact h.exists_won_of_test env hstart hstage hfree hplace hzero hholds hphase
    · exact hload _ rfl (by simp [execute, Hart.goto, Hart.get, hne]) hholds
  · exact h.exists_won_of_swap env hstart hstage hfree hplace hholds hphase
  · rcases Decidable.em ((c.lock.harts i).x .a2 = 0#64) with hzero | hne
    · exact absurd (.inr (.inl ⟨hplace, hzero⟩)) hnot
    · exact hload _ rfl (by simp [execute, Hart.goto, Hart.get, hne]) hholds
  · omega
  · omega

end Winning

/-- A hart outside of all sections comes to its next access, or it spins for it. -/
theorem exists_outside (env : ε → τ → τ) (h : Mirrors c d) {p : Program E α}
    (hstage : d.stages i = .outside p) :
    ∃ c', Leads (spinStep S env) c c' ∧ Mirrors c' d ∧ (∀ j ≠ i, c'.phases j = c.phases j) ∧
      (((c'.lock.harts i).place = none ∧ (c'.lock.harts i).holds = false ∧
          c'.phases i = .program p) ∨
        ∃ o code k, S.start o = some code ∧ p = .access o k ∧ Spinning (c'.lock.harts i) ∧
          c'.phases i = .acquiring o code k) := by
  have hshows := h.shows i
  rw [hstage] at hshows
  generalize hphase : c.phases i = phase at hshows
  cases hshows with
  | program hplace hholds =>
      exact ⟨c, .refl c, h, fun _ _ => rfl, .inl ⟨hplace, hholds, hphase⟩⟩
  | @spinning o code k hstart hspinning =>
      exact ⟨c, .refl c, h, fun _ _ => rfl, .inr ⟨o, code, k, hstart, rfl, hspinning, hphase⟩⟩
  | left hplace hholds =>
      obtain ⟨c', hleads, h', hhart, hphase'⟩ := h.exists_execute env .ret (.program p) hplace
        rfl rfl (by rw [hphase]; rfl) (by
          rw [hstage]
          apply Shows.program
          · rfl
          · simp [execute, hholds])
      refine ⟨c', hleads, h', fun j hne => by simp [hphase', hne], .inl ⟨?_, ?_, by simp [hphase']⟩⟩
      · rw [hhart]
        rfl
      · simp [hhart, execute, hholds]

/-- A hart that has won the lock comes to its section. -/
theorem exists_inside (env : ε → τ → τ) (h : Mirrors c d) {o : E.Op} {code : S.Code o} {k : E.Answer o → Program E α}
    (hstage : d.stages i = .inside o code k) :
    ∃ c', Leads (spinStep S env) c c' ∧ Mirrors c' d ∧ (c'.lock.harts i).place = none ∧
      (c'.lock.harts i).holds = true ∧ c'.phases i = .section o code k := by
  -- the last instruction of `acquire`
  have hret : ∀ {c : SpinMachine S α ι}, Mirrors c d →
      (c.lock.harts i).place = some (.acquire, 5) → c.phases i = .acquiring o code k →
      ∃ c', Leads (spinStep S env) c c' ∧ Mirrors c' d ∧ (c'.lock.harts i).place = none ∧
        (c'.lock.harts i).holds = true ∧ c'.phases i = .section o code k := by
    intro c h hplace hphase
    obtain ⟨c', hleads, h', hhart, hphase'⟩ := h.exists_execute env .ret (.section o code k)
      hplace rfl rfl (by rw [hphase]; rfl) (by
        rw [hstage]
        apply Shows.inside
        · rfl
        · simp [execute])
    refine ⟨c', hleads, h', ?_, ?_, by simp [hphase']⟩
    · rw [hhart]
      rfl
    · simp [hhart, execute]
  have hshows := h.shows i
  rw [hstage] at hshows
  generalize hphase : c.phases i = phase at hshows
  cases hshows with
  | inside hplace hholds => exact ⟨c, .refl c, h, hplace, hholds, hphase⟩
  | won hwon hholds =>
      rcases hwon with ⟨hplace, hzero⟩ | hplace
      · obtain ⟨c₁, hleads, h₁, hhart, hphase₁⟩ := h.exists_execute env (.bnez .a2 1)
          (.acquiring o code k) hplace rfl rfl (by
            simp [execute, Hart.goto, hphase]) (by
            rw [hstage]
            apply Shows.won
            · simp [execute, Hart.goto, Hart.get, JustWon, hzero]
            · exact hholds)
        obtain ⟨c₂, hrest, h₂⟩ := hret h₁
          (by simp [hhart, execute, Hart.goto, Hart.get, hzero]) (by simp [hphase₁])
        exact ⟨c₂, hleads.trans hrest, h₂⟩
      · exact hret h hplace hphase

/-- The hart at the first instruction of a routine. -/
def entered (hart : Hart) (routine : Routine) : Hart :=
  ({ hart with x := fun _ => 0 } : Hart).goto routine 0

theorem exists_call (h : Mirrors c d) (routine : Routine) (phase : Phase S α) (s : τ)
    (hplace : (c.lock.harts i).place = none)
    (hholds : routine = .release → (c.lock.harts i).holds = true) :
    ∃ lock, callStep c i (fun _ => 0) routine phase s =
        some ⟨lock, Function.update c.phases i phase, s⟩ ∧ LockInv lock ∧
      lock.harts = Function.update c.lock.harts i (entered (c.lock.harts i) routine) := by
  have hcall : Spinlock.step c.lock (.call i routine fun _ => 0) = some
      ⟨c.lock.locked, Function.update c.lock.harts i (entered (c.lock.harts i) routine)⟩ := by
    simp only [Spinlock.step, if_pos (And.intro hplace hholds), entered]
  refine ⟨_, ?_, lockInv_step h.lock hcall, rfl⟩
  rw [callStep, hcall]
  rfl

/-- The spinlock can do what a lock that is taken at once does. -/
theorem of_threadStep (env : ε → τ → τ) (h : Mirrors c d) {d' : Machine S α ι}
    (hstep : threadStep d i = some d') : ∃ c', Leads (spinStep S env) c c' ∧ Mirrors c' d' := by
  have hmachine : machineStep S env d (.inl i) = some d' := hstep
  have hexclusive := exclusive_of_machineStep h.exclusive hmachine
  obtain ⟨stage, owner, s, hmove, rfl⟩ := move_of_threadStep hstep
  generalize hstage : d.stages i = stage₀ at hmove
  generalize howner : d.owner = owner₀ at hmove
  cases hmove with
  | @direct o k _ hstart =>
      obtain ⟨c₁, hleads, h₁, -, ⟨hplace, hholds, hphase⟩ | ⟨o', code, k', hstart', hp, -⟩⟩ :=
        h.exists_outside env hstage
      · refine ⟨_, hleads.trans (.single (l := .inl (i, fun _ => 0)) ?_),
          h₁.move owner _ h₁.lock (Function.update_eq_self _ _).symm (.program hplace hholds)
            hexclusive⟩
        simp only [spinStep, hartStep, hplace, hphase, hstart, h₁.shared]
        rfl
      · cases hp
        rw [hstart] at hstart'
        cases hstart'
  | @enter o code k hstart =>
      obtain ⟨c₁, hleads, h₁, -, ⟨hplace, hholds, hphase⟩ |
        ⟨o', code', k', hstart', hp, hspin, hphase⟩⟩ := h.exists_outside env hstage
      · obtain ⟨lock, hcall, hinv, hharts⟩ := h₁.exists_call .acquire
          (.acquiring o code k) c₁.shared hplace (by simp)
        have hspinning : Spinning (entered (c₁.lock.harts i) .acquire) := by
          simp [Spinning, entered, Hart.goto, Owner, JustWon, hholds]
        have hshows : Shows S (entered (c₁.lock.harts i) .acquire) (.acquiring o code k)
            (d.stages i) := by
          rw [hstage]
          exact .spinning hstart hspinning
        have hcalled := h₁.stay hinv hharts hshows
        obtain ⟨c₂, hrest, h₂⟩ := hcalled.exists_won env hstart hstage howner
          (by rwa [hharts, Function.update_self]) (Function.update_self _ _ _)
        refine ⟨c₂, (hleads.trans (.single (l := .inl (i, fun _ => 0)) ?_)).trans hrest, h₂⟩
        simp only [spinStep, hartStep, hplace, hphase, hstart, hcall]
      · cases hp
        obtain rfl : code' = code := Option.some.inj (hstart'.symm.trans hstart)
        obtain ⟨c₂, hrest, h₂⟩ := h₁.exists_won env hstart hstage howner hspin hphase
        exact ⟨c₂, hleads.trans hrest, h₂⟩
  | @inside o code code' k _ _ hnext =>
      obtain ⟨c₁, hleads, h₁, hplace, hholds, hphase⟩ := h.exists_inside env hstage
      refine ⟨_, hleads.trans (.single (l := .inl (i, fun _ => 0)) ?_),
        h₁.move owner s h₁.lock (Function.update_eq_self _ _).symm (.inside hplace hholds)
          hexclusive⟩
      simp only [spinStep, hartStep, hplace, hphase, h₁.shared, hnext]
      rfl
  | @answer o code k _ a _ hnext =>
      obtain ⟨c₁, hleads, h₁, hplace, hholds, hphase⟩ := h.exists_inside env hstage
      obtain ⟨lock, hcall, hinv, hharts⟩ := h₁.exists_call .release
        (.releasing (k a)) s hplace fun _ => hholds
      refine ⟨_, hleads.trans (.single (l := .inl (i, fun _ => 0)) ?_),
        h₁.move owner s hinv hharts (.closing rfl hholds) hexclusive⟩
      simp only [spinStep, hartStep, hplace, hphase, h₁.shared, hnext, hcall]
  | @leave p _ =>
      have hshows := h.shows i
      rw [hstage] at hshows
      generalize hphase : c.phases i = phase at hshows
      cases hshows with
      | closing hplace hholds =>
          have hlock : Spinlock.step c.lock (.execute i) = some
              ⟨(execute c.lock.locked (c.lock.harts i) .release 0 (.amoswap .zero .zero)).1,
                Function.update c.lock.harts i
                  (execute c.lock.locked (c.lock.harts i) .release 0 (.amoswap .zero .zero)).2⟩ := by
            simp only [Spinlock.step, hplace]
            rfl
          have hshows : Shows S
              (execute c.lock.locked (c.lock.harts i) .release 0 (.amoswap .zero .zero)).2
              (.releasing p) (.outside p) := by
            apply Shows.left
            · rfl
            · simp [execute, Hart.goto]
          refine ⟨_, .single (l := .inl (i, fun _ => 0)) ?_,
            h.move none _ (lockInv_step h.lock hlock) rfl hshows hexclusive⟩
          simp only [spinStep, hartStep, hplace, lockStep, hlock, Option.map_some, ite_update,
            Function.update_self, hphase, h.shared]
          rfl

/-- Every step of the machine with the other lock can be taken. -/
theorem of_machineStep (h : Mirrors c d) {d' : Machine S α ι} {label : ι ⊕ ε}
    (hstep : machineStep S env d label = some d') :
    ∃ c', Leads (spinStep S env) c c' ∧ Mirrors c' d' := by
  cases label with
  | inl i => exact h.of_threadStep env hstep
  | inr e =>
      cases hstep
      refine ⟨{ c with shared := env e c.shared }, .single (l := .inr e) rfl, h.lock, h.shows,
        h.exclusive, ?_⟩
      exact congrArg (env e) h.shared

/-- When all threads have ended, the last harts return from `release`. -/
theorem exists_returned (env : ε → τ → τ) (h : Mirrors c d)
    (hended : ∀ i, (d.stages i).Ended) (l : List ι) :
    ∃ c', Leads (spinStep S env) c c' ∧ Mirrors c' d ∧
      ∀ i ∈ l, ∃ p, c'.phases i = .program p ∧ (Stage.outside p : Stage S α).Ended := by
  induction l with
  | nil => exact ⟨c, .refl c, h, by simp⟩
  | cons i l ih =>
      obtain ⟨c₁, hleads, h₁, hall⟩ := ih
      have hi := hended i
      cases hstage : d.stages i with
      | outside p =>
          rw [hstage] at hi
          obtain ⟨c₂, hrest, h₂, hkeep, ⟨-, -, hphase⟩ | ⟨o, code, k, -, rfl, -⟩⟩ :=
            h₁.exists_outside env hstage
          · refine ⟨c₂, hleads.trans hrest, h₂, fun j hj => ?_⟩
            rcases eq_or_ne j i with rfl | hne
            · exact ⟨p, hphase, hi⟩
            · rw [hkeep j hne]
              exact hall j ((List.mem_cons.mp hj).resolve_left hne)
          · exact hi.elim
      | inside o code k =>
          rw [hstage] at hi
          exact hi.elim
      | closing p =>
          rw [hstage] at hi
          exact hi.elim

end Mirrors

section Reductions

variable {env : ε → τ → τ} {σ : Type} {H : Handler E σ} {programs : ι → Program E α} {s : τ}

theorem exists_mirror {c : SpinMachine S α ι}
    (hleads : Leads (spinStep S env) (.initial S programs s) c) :
    ∃ d, Leads (machineStep S env) (.initial S programs s) d ∧ Mirrors c d :=
  exists_leads_of_simulation (fun _ _ _ _ h hstep => h.of_spinStep hstep)
    (.initial S programs s) hleads

/-- Every interleaving of the instructions of the lock and of the accesses is one of
atomic accesses. -/
theorem exists_pool (R : Reduction S env H) {t : σ} (hagree : R.Agree none s t)
    {c : SpinMachine S α ι} (hleads : Leads (spinStep S env) (.initial S programs s) c) :
    ∃ m d, Mirrors c m ∧ Follows R m d ∧ Leads (poolStep H) ⟨programs, t⟩ d := by
  obtain ⟨m, hmachine, hmirrors⟩ := exists_mirror hleads
  obtain ⟨d, hpool, hfollows⟩ := R.exists_leads hagree hmachine
  exact ⟨m, d, hmirrors, hfollows, hpool⟩

/-- From wherever the harts have come to, all programs can be brought to their ends
when all sections can. -/
theorem exists_returned [Fintype ι] (R : Reduction S env H)
    (hfinishes : ∀ {o : E.Op} {code : S.Code o} {s : τ} {t : σ}, R.Agree (some ⟨o, code⟩) s t →
      Finishes S env o code s)
    {t : σ} (hagree : R.Agree none s t) {c : SpinMachine S α ι}
    (hleads : Leads (spinStep S env) (.initial S programs s) c) :
    ∃ c', Leads (spinStep S env) c c' ∧
      ∀ i, (∃ a, c'.phases i = .program (.done a)) ∨
        ∃ message, c'.phases i = .program (.panic message) := by
  obtain ⟨m, d, hmirrors, hfollows, -⟩ := exists_pool R hagree hleads
  obtain ⟨m', hended, hall⟩ := exists_leads_ended hfinishes ⟨d, hfollows⟩
  have hstep : ∀ (m : Machine S α ι) (c : SpinMachine S α ι) (label : ι ⊕ ε) (m₁ : Machine S α ι),
      Mirrors c m → machineStep S env m label = some m₁ →
      ∃ c₁, Leads (spinStep S env) c c₁ ∧ Mirrors c₁ m₁ :=
    fun _ _ _ _ h hstep => h.of_machineStep hstep
  obtain ⟨c₁, hfirst, h₁⟩ := exists_leads_of_simulation (R := fun m c => Mirrors c m) hstep hmirrors
    hended
  obtain ⟨c₂, hrest, -, hreturned⟩ := h₁.exists_returned env hall Finset.univ.toList
  refine ⟨c₂, hfirst.trans hrest, fun i => ?_⟩
  obtain ⟨p, hphase, hp⟩ := hreturned i (by simp)
  cases p with
  | done a => exact .inl ⟨a, hphase⟩
  | panic message => exact .inr ⟨message, hphase⟩
  | access o k => exact hp.elim

end Reductions

end RiscvHypervisor.SpinlockSections
