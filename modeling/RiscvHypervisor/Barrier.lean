import RiscvHypervisor.TransitionSystem
import Mathlib.Tactic.Common

/-!
The self-resetting barrier of `lib/lock.c` on top of the spinlock of
`lib/spinlock.S`, as a machine in which every step is one shared-memory access
of one hart.  Branches on a value just read belong to the step that read it.
-/

namespace RiscvHypervisor.Barrier

/-- The two locked sections of `wait_barrier`: `tokens--` and `passed++`. -/
inductive Section
  | take
  | pass
  deriving DecidableEq, Repr

/-- The next shared-memory access of a hart in `wait_barrier`. -/
inductive Pc
  /-- Outside of the function. -/
  | idle
  /-- `lw a2, (a0)` of `acquire`, with the branch back to it. -/
  | acquireLoad (sec : Section)
  /-- `amoswap.w.aq a2, a1, (a0)` of `acquire`, with the branch back. -/
  | acquireSwap (sec : Section)
  /-- The read half of `tokens--` or `passed++`. -/
  | loadCount (sec : Section)
  /-- The write half, with the value read. -/
  | storeCount (sec : Section) (v : Int)
  /-- `amoswap.w.rl zero, zero, (a0)` of `release`. -/
  | release (sec : Section)
  /-- The read of `tokens` in `if (LAST_HART)`. -/
  | lastHart
  /-- `bar->passed = 1`. -/
  | setPassed
  /-- `bar->tokens = bar->initial`. -/
  | resetTokens
  /-- The test of `while (bar->passed != bar->initial)`. -/
  | spinPassed
  /-- The test of `while (bar->tokens != bar->initial)`. -/
  | spinTokens
  deriving DecidableEq, Repr

/-- A hart, with the number of `wait_barrier` calls it has started and returned
from. -/
structure Hart where
  pc : Pc
  started : Nat
  returned : Nat
  deriving DecidableEq, Repr

/-- `struct barrier` and the harts that use it.  `initial` is written by
`init_barrier` only, so it is not part of the state. -/
structure State (n : Nat) where
  tokens : Int
  passed : Int
  locked : Int
  harts : Fin n → Hart

/-- `initial`, the count given to `init_barrier`. -/
def initial (n : Nat) : Int := n

/-- `init_barrier` with as many tokens as harts.  It does not write `passed`,
which keeps whatever value it had. -/
def initBarrier (n : Nat) (passed : Int) : State n where
  tokens := initial n
  passed := passed
  locked := 0
  harts := fun _ => ⟨.idle, 0, 0⟩

def Init {n : Nat} (s : State n) : Prop := ∃ passed, s = initBarrier n passed

variable {n : Nat}

namespace State

/-- Move a hart to another program point. -/
def goto (s : State n) (i : Fin n) (pc : Pc) : State n :=
  { s with harts := Function.update s.harts i { s.harts i with pc := pc } }

/-- The hart enters `wait_barrier`. -/
def call (s : State n) (i : Fin n) : State n :=
  { s with
    harts := Function.update s.harts i
      { pc := .acquireLoad .take
        started := (s.harts i).started + 1
        returned := (s.harts i).returned } }

/-- The hart returns from `wait_barrier`. -/
def ret (s : State n) (i : Fin n) : State n :=
  { s with
    harts := Function.update s.harts i
      { pc := .idle
        started := (s.harts i).started
        returned := (s.harts i).returned + 1 } }

end State

/-- One shared-memory access of hart `i`.  A spinning hart whose awaited value
is not there stays where it is. -/
def step (s : State n) (i : Fin n) : State n :=
  match (s.harts i).pc with
  | .idle => s.call i
  | .acquireLoad sec => if s.locked ≠ 0 then s else s.goto i (.acquireSwap sec)
  | .acquireSwap sec =>
      -- the swap writes 1 also when it loses
      if s.locked ≠ 0 then { s with locked := 1 }.goto i (.acquireLoad sec)
      else { s with locked := 1 }.goto i (.loadCount sec)
  | .loadCount .take => s.goto i (.storeCount .take s.tokens)
  | .loadCount .pass => s.goto i (.storeCount .pass s.passed)
  | .storeCount .take v => { s with tokens := v - 1 }.goto i (.release .take)
  | .storeCount .pass v => { s with passed := v + 1 }.goto i (.release .pass)
  | .release .take => { s with locked := 0 }.goto i .lastHart
  | .release .pass => { s with locked := 0 }.ret i
  | .lastHart => if s.tokens = 0 then s.goto i .setPassed else s.goto i .spinTokens
  | .setPassed => { s with passed := 1 }.goto i .resetTokens
  | .resetTokens => { s with tokens := initial n }.goto i .spinPassed
  | .spinPassed => if s.passed ≠ initial n then s else s.ret i
  | .spinTokens => if s.tokens ≠ initial n then s else s.goto i (.acquireLoad .pass)

/-- The barrier as a transition system: the label is the hart that moves. -/
def next (s : State n) (i : Fin n) : Option (State n) := some (step s i)

/-- No hart has returned from more calls than every hart has started. -/
def Separated (s : State n) : Prop :=
  ∀ i j, (s.harts i).returned ≤ (s.harts j).started

/-- A hart that has not made all of its `r` calls. -/
def Unfinished (r : Nat) (h : Hart) : Prop := ¬ (h.pc = .idle ∧ h.returned = r)

/-- The hart tests a spin loop, or the lock word, and the awaited value is not
there. -/
def Waiting (s : State n) (h : Hart) : Prop :=
  (∃ sec, h.pc = .acquireLoad sec ∧ s.locked ≠ 0) ∨
    (h.pc = .spinPassed ∧ s.passed ≠ initial n) ∨
    (h.pc = .spinTokens ∧ s.tokens ≠ initial n)

/-- Some hart is not done and no hart that is not done can move on. -/
def Stuck (r : Nat) (s : State n) : Prop :=
  (∃ i, Unfinished r (s.harts i)) ∧
    ∀ i, Unfinished r (s.harts i) → Waiting s (s.harts i)

/-- No hart makes more than `r` calls. -/
def CallLimit (r : Nat) (s : State n) (i : Fin n) : Prop :=
  (s.harts i).pc = .idle → (s.harts i).returned < r

/-- What a step does to the shared words and to the hart that takes it. -/
inductive Move (n : Nat) (t p l : Int) : Hart → Int → Int → Int → Hart → Prop
  | call {k m} : Move n t p l ⟨.idle, k, m⟩ t p l ⟨.acquireLoad .take, k + 1, m⟩
  | lockTaken {sec k m} : l ≠ 0 →
      Move n t p l ⟨.acquireLoad sec, k, m⟩ t p l ⟨.acquireLoad sec, k, m⟩
  | lockFree {sec k m} : l = 0 →
      Move n t p l ⟨.acquireLoad sec, k, m⟩ t p l ⟨.acquireSwap sec, k, m⟩
  | loseSwap {sec k m} : l ≠ 0 →
      Move n t p l ⟨.acquireSwap sec, k, m⟩ t p 1 ⟨.acquireLoad sec, k, m⟩
  | winSwap {sec k m} : l = 0 →
      Move n t p l ⟨.acquireSwap sec, k, m⟩ t p 1 ⟨.loadCount sec, k, m⟩
  | loadTokens {k m} :
      Move n t p l ⟨.loadCount .take, k, m⟩ t p l ⟨.storeCount .take t, k, m⟩
  | loadPassed {k m} :
      Move n t p l ⟨.loadCount .pass, k, m⟩ t p l ⟨.storeCount .pass p, k, m⟩
  | storeTokens {v k m} :
      Move n t p l ⟨.storeCount .take v, k, m⟩ (v - 1) p l ⟨.release .take, k, m⟩
  | storePassed {v k m} :
      Move n t p l ⟨.storeCount .pass v, k, m⟩ t (v + 1) l ⟨.release .pass, k, m⟩
  | releaseTokens {k m} :
      Move n t p l ⟨.release .take, k, m⟩ t p 0 ⟨.lastHart, k, m⟩
  | releasePassed {k m} :
      Move n t p l ⟨.release .pass, k, m⟩ t p 0 ⟨.idle, k, m + 1⟩
  | isLast {k m} : t = 0 →
      Move n t p l ⟨.lastHart, k, m⟩ t p l ⟨.setPassed, k, m⟩
  | notLast {k m} : t ≠ 0 →
      Move n t p l ⟨.lastHart, k, m⟩ t p l ⟨.spinTokens, k, m⟩
  | setPassed {k m} :
      Move n t p l ⟨.setPassed, k, m⟩ t 1 l ⟨.resetTokens, k, m⟩
  | resetTokens {k m} :
      Move n t p l ⟨.resetTokens, k, m⟩ (initial n) p l ⟨.spinPassed, k, m⟩
  | othersInside {k m} : p ≠ initial n →
      Move n t p l ⟨.spinPassed, k, m⟩ t p l ⟨.spinPassed, k, m⟩
  | allPassed {k m} : p = initial n →
      Move n t p l ⟨.spinPassed, k, m⟩ t p l ⟨.idle, k, m + 1⟩
  | noReset {k m} : t ≠ initial n →
      Move n t p l ⟨.spinTokens, k, m⟩ t p l ⟨.spinTokens, k, m⟩
  | seeReset {k m} : t = initial n →
      Move n t p l ⟨.spinTokens, k, m⟩ t p l ⟨.acquireLoad .pass, k, m⟩

theorem exists_move (s : State n) (i : Fin n) :
    ∃ t p l h, Move n s.tokens s.passed s.locked (s.harts i) t p l h ∧
      step s i = ⟨t, p, l, Function.update s.harts i h⟩ := by
  rcases s with ⟨t, p, l, harts⟩
  rcases hi : harts i with ⟨pc, k, m⟩
  have hself : Function.update harts i ⟨pc, k, m⟩ = harts := by
    rw [← hi, Function.update_eq_self]
  simp only [hi]
  cases pc with
  | idle => exact ⟨_, _, _, _, .call, by simp [step, State.call, hi]⟩
  | acquireLoad sec =>
      rcases eq_or_ne l 0 with hl | hl
      · exact ⟨_, _, _, _, .lockFree hl, by simp [step, State.goto, hi, hl]⟩
      · exact ⟨_, _, _, _, .lockTaken hl, by simp [step, hi, hl, hself]⟩
  | acquireSwap sec =>
      rcases eq_or_ne l 0 with hl | hl
      · exact ⟨_, _, _, _, .winSwap hl, by simp [step, State.goto, hi, hl]⟩
      · exact ⟨_, _, _, _, .loseSwap hl, by simp [step, State.goto, hi, hl]⟩
  | loadCount sec =>
      cases sec with
      | take => exact ⟨_, _, _, _, .loadTokens, by simp [step, State.goto, hi]⟩
      | pass => exact ⟨_, _, _, _, .loadPassed, by simp [step, State.goto, hi]⟩
  | storeCount sec v =>
      cases sec with
      | take => exact ⟨_, _, _, _, .storeTokens, by simp [step, State.goto, hi]⟩
      | pass => exact ⟨_, _, _, _, .storePassed, by simp [step, State.goto, hi]⟩
  | release sec =>
      cases sec with
      | take => exact ⟨_, _, _, _, .releaseTokens, by simp [step, State.goto, hi]⟩
      | pass => exact ⟨_, _, _, _, .releasePassed, by simp [step, State.ret, hi]⟩
  | lastHart =>
      rcases eq_or_ne t 0 with ht | ht
      · exact ⟨_, _, _, _, .isLast ht, by simp [step, State.goto, hi, ht]⟩
      · exact ⟨_, _, _, _, .notLast ht, by simp [step, State.goto, hi, ht]⟩
  | setPassed => exact ⟨_, _, _, _, .setPassed, by simp [step, State.goto, hi]⟩
  | resetTokens => exact ⟨_, _, _, _, .resetTokens, by simp [step, State.goto, hi]⟩
  | spinPassed =>
      rcases eq_or_ne p (initial n) with hp | hp
      · exact ⟨_, _, _, _, .allPassed hp, by simp [step, State.ret, hi, hp]⟩
      · exact ⟨_, _, _, _, .othersInside hp, by simp [step, hi, hp, hself]⟩
  | spinTokens =>
      rcases eq_or_ne t (initial n) with ht | ht
      · exact ⟨_, _, _, _, .seeReset ht, by simp [step, State.goto, hi, ht]⟩
      · exact ⟨_, _, _, _, .noReset ht, by simp [step, hi, ht, hself]⟩

end RiscvHypervisor.Barrier
