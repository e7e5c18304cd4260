import RiscvHypervisor.BarrierRounds
import RiscvHypervisor.BarrierSchedules
import RiscvHypervisor.CpuPartition
import RiscvHypervisor.GuestMemory

/-!
`vm_run` of `core/vm_run.c`, taken by all harts at once.  A step is one access
of one hart to a barrier or to the page tables, or a part of `vm_run` that
touches nothing that another hart reads.
-/

namespace RiscvHypervisor.VmRun

open RiscvHypervisor.TransitionSystem
open RiscvHypervisor.EffectProgram
open RiscvHypervisor.MachineTypes
open RiscvHypervisor.GuestConfig
open RiscvHypervisor.OwnedMemory
open RiscvHypervisor.KernelMemory
open RiscvHypervisor.GuestMemory
open RiscvHypervisor.VirtualCpu
open RiscvHypervisor.CpuPartition

/-- The words of a `struct barrier`. -/
structure BarrierWords where
  initial : Int
  tokens : Int
  passed : Int
  locked : Int

/-- `BARRIER_INITIALIZER(cnt)`; the member that it leaves out is 0. -/
def barrierInitializer (cnt : Int) : BarrierWords where
  initial := cnt
  tokens := cnt
  passed := 0
  locked := 0

/-- One shared-memory access of `wait_barrier` on the words of a barrier, with the
access that follows.  After the last one the hart is outside of the function. -/
def waitBarrier (bar : BarrierWords) : Barrier.Pc → BarrierWords × Barrier.Pc
  | .idle => (bar, .acquireLoad .take)
  | .acquireLoad sec => (bar, if bar.locked ≠ 0 then .acquireLoad sec else .acquireSwap sec)
  | .acquireSwap sec =>
      ({ bar with locked := 1 }, if bar.locked ≠ 0 then .acquireLoad sec else .loadCount sec)
  | .loadCount .take => (bar, .storeCount .take bar.tokens)
  | .loadCount .pass => (bar, .storeCount .pass bar.passed)
  | .storeCount .take v => ({ bar with tokens := v - 1 }, .release .take)
  | .storeCount .pass v => ({ bar with passed := v + 1 }, .release .pass)
  | .release .take => ({ bar with locked := 0 }, .lastHart)
  | .release .pass => ({ bar with locked := 0 }, .idle)
  | .lastHart => (bar, if bar.tokens = 0 then .setPassed else .spinTokens)
  | .setPassed => ({ bar with passed := 1 }, .resetTokens)
  | .resetTokens => ({ bar with tokens := bar.initial }, .spinPassed)
  | .spinPassed => (bar, if bar.passed ≠ bar.initial then .spinPassed else .idle)
  | .spinTokens => (bar, if bar.tokens ≠ bar.initial then .spinTokens else .acquireLoad .pass)

/-- The stores of `init_barrier`, in their order. -/
inductive BarrierField
  | tokens
  | initial
  | lock
  deriving DecidableEq, Repr

/-- What a hart does next in `vm_run`. -/
inductive Point
  /-- The test of `hartid == 0`. -/
  | entry
  /-- A store of `init_vm_barriers` for machine `i`; the loop test goes with the first. -/
  | initBarrier (i : Nat) (field : BarrierField)
  | checkCpuConfiguration
  /-- `wait_barrier(&bar)`. -/
  | waitAll (pc : Barrier.Pc)
  | initVcpu
  /-- What is left of `init_hs_pgtable`. -/
  | initHsPgtable (rest : KernelM Unit)
  /-- `wait_barrier(&vcpu->conf->bar)`. -/
  | waitVm (pc : Barrier.Pc)
  | initHs
  | initVs
  | vmEnter
  /-- In the guest. -/
  | entered

/-- Where a hart is after an access of `wait_barrier`. -/
def afterWait (wait : Barrier.Pc → Point) (returned : Point) (pc : Barrier.Pc) : Point :=
  if pc = .idle then returned else wait pc

/-- A hart with its entry of `vcpus`. -/
structure Hart where
  point : Point
  /-- `vcpu->conf`, by its index in `config`. -/
  conf : Option Nat
  vhartid : Uint64
  /-- The hart has returned from `init_hs_pgtable`. -/
  mapped : Bool

structure State where
  /-- The barrier of all harts. -/
  bar : BarrierWords
  /-- `config[i].bar`. -/
  bars : Nat → BarrierWords
  /-- `init_barrier` has returned for `config[i].bar`. -/
  ready : Nat → Bool
  mem : KernelMem
  harts : Fin dtbNrCpus → Hart

/-- All harts enter `vm_run`.  Nothing is known of the barriers of the machines. -/
structure Init (s : State) : Prop where
  bar : s.bar = barrierInitializer dtbNrCpus
  ready : ∀ i, s.ready i = false
  harts : ∀ h, s.harts h = ⟨.entry, none, 0, false⟩

namespace State

def setHart (s : State) (h : Fin dtbNrCpus) (hart : Hart) : State :=
  { s with harts := Function.update s.harts h hart }

def goto (s : State) (h : Fin dtbNrCpus) (point : Point) : State :=
  s.setHart h { s.harts h with point := point }

def setBar (s : State) (i : Nat) (bar : BarrierWords) : State :=
  { s with bars := Function.update s.bars i bar }

end State

/-- One store of `init_barrier(&config[i].bar, count)`. -/
def initBarrierStep (s : State) (h : Fin dtbNrCpus) (i : Nat) (count : Int) :
    BarrierField → State
  | .tokens => (s.setBar i { s.bars i with tokens := count }).goto h (.initBarrier i .initial)
  | .initial => (s.setBar i { s.bars i with initial := count }).goto h (.initBarrier i .lock)
  | .lock =>
      { s.setBar i { s.bars i with locked := 0 } with
        ready := Function.update s.ready i true }.goto h (.initBarrier (i + 1) .tokens)

/-- One step of hart `h`.  A hart that has panicked, or has left `vm_run` for its
guest, takes no step. -/
def step (config : List VmConfig) (s : State) (h : Fin dtbNrCpus) : Option State :=
  let hart := s.harts h
  match hart.point with
  | .entry =>
      some (s.goto h (if h.val = 0 then .initBarrier 0 .tokens else .waitAll .idle))
  | .initBarrier i field =>
      if field = .tokens ∧ config.length ≤ i then
        some (s.goto h .checkCpuConfiguration)
      else
        some (initBarrierStep s h i (countSetBits (affinity config i)) field)
  | .checkCpuConfiguration =>
      match checkCpuConfiguration config with
      | .ok () => some (s.goto h (.waitAll .idle))
      | .error _ => none
  | .waitAll pc =>
      let next := waitBarrier s.bar pc
      some ({ s with bar := next.1 }.goto h (afterWait .waitAll .initVcpu next.2))
  | .initVcpu =>
      match configOf config h with
      | .error _ => none
      | .ok i => config[i]?.map fun conf =>
          let vcpu := initVcpu (BitVec.ofNat 64 h) conf
          s.setHart h
            { hart with
              point := if vcpu.vhartid = 0 then .initHsPgtable (initHsPgtable conf) else .waitVm .idle
              conf := some i
              vhartid := vcpu.vhartid }
  | .initHsPgtable (.done ()) =>
      some (s.setHart h { hart with point := .waitVm .idle, mapped := true })
  | .initHsPgtable (.panic _) => none
  | .initHsPgtable (.access o k) =>
      let next := heapHandler o s.mem
      some ({ s with mem := next.2 }.goto h (.initHsPgtable (k next.1)))
  | .waitVm pc =>
      hart.conf.map fun i =>
        let next := waitBarrier (s.bars i) pc
        (s.setBar i next.1).goto h (afterWait .waitVm .initHs next.2)
  | .initHs => some (s.goto h .initVs)
  | .initVs => some (s.goto h .vmEnter)
  | .vmEnter => some (s.goto h .entered)
  | .entered => none

/-! Each barrier of `vm_run` is one of `lib/lock.c` that every hart waits on once. -/

section Barriers

variable {n : Nat} {bar : BarrierWords} {view : Fin n → Barrier.Hart}

/-- The words of a barrier with the harts that use it. -/
def project (bar : BarrierWords) (view : Fin n → Barrier.Hart) : Barrier.State n where
  tokens := bar.tokens
  passed := bar.passed
  locked := bar.locked
  harts := view

/-- A hart before an access of its one call. -/
def calling (pc : Barrier.Pc) : Barrier.Hart := if pc = .idle then ⟨.idle, 0, 0⟩ else ⟨pc, 1, 0⟩

/-- A hart after an access of its one call. -/
def called (pc : Barrier.Pc) : Barrier.Hart := if pc = .idle then ⟨.idle, 1, 1⟩ else ⟨pc, 1, 0⟩

/-- An access of `wait_barrier` is a move of the barrier. -/
theorem move_waitBarrier (hinitial : bar.initial = n) (pc : Barrier.Pc) :
    Barrier.Move n bar.tokens bar.passed bar.locked (calling pc) (waitBarrier bar pc).1.tokens
      (waitBarrier bar pc).1.passed (waitBarrier bar pc).1.locked
      (called (waitBarrier bar pc).2) := by
  cases pc with
  | idle => exact .call
  | acquireLoad sec =>
      rcases eq_or_ne bar.locked 0 with hfree | htaken
      · rw [waitBarrier, if_neg (not_not.mpr hfree)]
        exact .lockFree hfree
      · rw [waitBarrier, if_pos htaken]
        exact .lockTaken htaken
  | acquireSwap sec =>
      rcases eq_or_ne bar.locked 0 with hfree | htaken
      · rw [waitBarrier, if_neg (not_not.mpr hfree)]
        exact .winSwap hfree
      · rw [waitBarrier, if_pos htaken]
        exact .loseSwap htaken
  | loadCount sec =>
      cases sec with
      | take => exact .loadTokens
      | pass => exact .loadPassed
  | storeCount sec v =>
      cases sec with
      | take => exact .storeTokens
      | pass => exact .storePassed
  | release sec =>
      cases sec with
      | take => exact .releaseTokens
      | pass => exact .releasePassed
  | lastHart =>
      rcases eq_or_ne bar.tokens 0 with hzero | hleft
      · rw [waitBarrier, if_pos hzero]
        exact .isLast hzero
      · rw [waitBarrier, if_neg hleft]
        exact .notLast hleft
  | setPassed => exact .setPassed
  | resetTokens =>
      rw [waitBarrier, hinitial]
      exact .resetTokens
  | spinPassed =>
      rcases eq_or_ne bar.passed bar.initial with hall | hinside
      · rw [waitBarrier, if_neg (not_not.mpr hall)]
        exact .allPassed (hall.trans hinitial)
      · rw [waitBarrier, if_pos hinside]
        exact .othersInside fun hall => hinside (hall.trans hinitial.symm)
  | spinTokens =>
      rcases eq_or_ne bar.tokens bar.initial with hreset | hgone
      · rw [waitBarrier, if_neg (not_not.mpr hreset)]
        exact .seeReset (hreset.trans hinitial)
      · rw [waitBarrier, if_pos hgone]
        exact .noReset fun hreset => hgone (hreset.trans hinitial.symm)

theorem step_project (hinitial : bar.initial = n) {i : Fin n} {pc : Barrier.Pc}
    (hview : view i = calling pc) : Barrier.step (project bar view) i =
      project (waitBarrier bar pc).1 (Function.update view i (called (waitBarrier bar pc).2)) := by
  obtain ⟨t, p, l, h, hmove, heq⟩ := Barrier.exists_move (project bar view) i
  have hpc : (project bar view).harts i = calling pc := hview
  rw [hpc] at hmove
  obtain ⟨rfl, rfl, rfl, rfl⟩ := hmove.unique (move_waitBarrier hinitial pc)
  exact heq

theorem waitBarrier_initial (bar : BarrierWords) (pc : Barrier.Pc) :
    (waitBarrier bar pc).1.initial = bar.initial := by
  rcases pc with _ | _ | _ | (_ | _) | ⟨_ | _, _⟩ | (_ | _) | _ <;> rfl

/-- The barrier counts the harts that use it, and each of them uses it once. -/
structure InUse (bar : BarrierWords) (view : Fin n → Barrier.Hart) : Prop where
  initial : bar.initial = n
  reached : Reachable Barrier.next (Barrier.CallLimit 1) Barrier.Init (project bar view)

theorem inUse_init (hinitial : bar.initial = n) (htokens : bar.tokens = n)
    (hlocked : bar.locked = 0) (hview : ∀ i, view i = ⟨.idle, 0, 0⟩) : InUse bar view := by
  refine ⟨hinitial, .start ⟨bar.passed, ?_⟩⟩
  have heq : view = fun _ => ⟨.idle, 0, 0⟩ := funext hview
  rw [project, Barrier.initBarrier, htokens, hlocked, heq, Barrier.initial]

theorem InUse.wait (hbar : InUse bar view) {i : Fin n} {pc : Barrier.Pc}
    (hview : view i = calling pc) :
    InUse (waitBarrier bar pc).1 (Function.update view i (called (waitBarrier bar pc).2)) := by
  refine ⟨(waitBarrier_initial bar pc).trans hbar.initial, .next hbar.reached (l := i) ?_ ?_⟩
  · intro hidle
    change (view i).pc = .idle at hidle
    change (view i).returned < 1
    rw [hview, calling] at hidle ⊢
    split <;> simp
  · rw [Barrier.next, step_project hbar.initial hview]

theorem InUse.separated (hbar : InUse bar view) (i j : Fin n) :
    (view i).returned ≤ (view j).started := by
  obtain ⟨r, hround⟩ := Barrier.inRound_of_callLimit hbar.reached
  exact hround.separated i j

end Barriers

end RiscvHypervisor.VmRun
