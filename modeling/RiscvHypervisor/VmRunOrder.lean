import RiscvHypervisor.VmRun
import Mathlib.Data.Finset.Sort

/-!
The order that the two barriers of `vm_run` impose.  A hart passes the barrier of
all harts only after hart 0 has set up the barriers of the machines, and it passes
the barrier of its machine only after the hart with virtual id 0 has mapped the
guest.
-/

namespace RiscvHypervisor.VmRun

open RiscvHypervisor.TransitionSystem
open RiscvHypervisor.EffectProgram
open RiscvHypervisor.MachineTypes
open RiscvHypervisor.GuestConfig
open RiscvHypervisor.OwnedMemory
open RiscvHypervisor.KernelMemory
open RiscvHypervisor.GuestMemory
open RiscvHypervisor.VirtualCpu
open RiscvHypervisor.CpuPartition

/-- Every hart is in one mask, every mask has a hart, and there is no other bit. -/
structure Assigned (config : List VmConfig) : Prop where
  machine : ∀ h < dtbNrCpus, ∃! i, i < config.length ∧ (affinity config i).getLsbD h = true
  inhabited : ∀ i < config.length, ∃ h < dtbNrCpus, (affinity config i).getLsbD h = true
  existing : ∀ i < config.length, ∀ h, dtbNrCpus ≤ h → (affinity config i).getLsbD h = false

/-- The hart of machine `i` with virtual id 0. -/
def Leads (config : List VmConfig) (i : Nat) (h : Fin dtbNrCpus) : Prop :=
  configOf config h = .ok i ∧ getVhartid (BitVec.ofNat 64 h) (affinity config i) = 0

/-- The hart is about to run `init_hs`, or has run it. -/
def Point.pastBarriers : Point → Prop
  | .initHs | .initVs | .vmEnter | .entered => True
  | _ => False

/-- The hart is in `init_hs_pgtable`, or has returned from it. -/
def Hart.runsPgtable (hart : Hart) : Prop :=
  hart.mapped = true ∨ ∃ rest, hart.point = .initHsPgtable rest

/-- No vcpu runs before the second-stage table of its machine is complete. -/
structure Ordered (config : List VmConfig) (s : State) : Prop where
  complete : ∀ h i, (s.harts h).conf = some i → (s.harts h).point.pastBarriers →
    ∃ leader, (s.harts leader).mapped = true ∧ ∀ h', Leads config i h' ↔ h' = leader
  single : ∀ h h' i, (s.harts h).conf = some i → (s.harts h').conf = some i →
    (s.harts h).runsPgtable → (s.harts h').runsPgtable → h = h'
  ready : ∀ h i pc, (s.harts h).conf = some i → (s.harts h).point = .waitVm pc →
    s.ready i = true

section Configuration

variable {config : List VmConfig}

theorem Assigned.disjoint (hconfig : Assigned config) : DisjointAffinity config := by
  intro i hi j hj
  refine BitVec.eq_of_getLsbD_eq fun h _ => ?_
  change (affinity config i &&& affinity config j).getLsbD h = (0#64).getLsbD h
  rw [BitVec.getLsbD_and, BitVec.getLsbD_zero, Bool.and_eq_false_imp]
  intro hbit
  rcases Nat.lt_or_ge h dtbNrCpus with hlt | hge
  · refine Bool.eq_false_iff.mpr fun hbit' => ?_
    have heq := (hconfig.machine h hlt).unique ⟨hi, hbit⟩ ⟨hj.trans hi, hbit'⟩
    omega
  · exact hconfig.existing j (hj.trans hi) h hge

theorem Assigned.toNat_lt (hconfig : Assigned config) {i : Nat} (hi : i < config.length) :
    (affinity config i).toNat < 2 ^ dtbNrCpus :=
  Nat.lt_pow_two_of_testBit _ fun h hge => hconfig.existing i hi h hge

theorem Assigned.ne_zero (hconfig : Assigned config) {i : Nat} (hi : i < config.length) :
    affinity config i ≠ 0 := by
  obtain ⟨h, -, hbit⟩ := hconfig.inhabited i hi
  intro hzero
  rw [hzero] at hbit
  simp at hbit

theorem Assigned.lt_of_configOf (hconfig : Assigned config) {h : Fin dtbNrCpus} {i : Nat}
    (hmachine : configOf config h = .ok i) : i < config.length :=
  ((configOf_eq_ok_iff hconfig.disjoint h.isLt).mp hmachine).1

theorem Assigned.exists_leader (hconfig : Assigned config) {i : Nat} (hi : i < config.length) :
    ∃ leader, ∀ h', Leads config i h' ↔ h' = leader := by
  obtain ⟨h, ⟨hlt, hleads⟩, hunique⟩ :=
    existsUnique_leader hconfig.disjoint hi (hconfig.ne_zero hi) (hconfig.toNat_lt hi)
  refine ⟨⟨h, hlt⟩, fun h' => ⟨fun hleads' => ?_, ?_⟩⟩
  · exact Fin.ext (hunique h' ⟨h'.isLt, hleads'⟩)
  · rintro rfl
    exact hleads

/-- The harts of a machine. -/
def members (config : List VmConfig) (i : Nat) : Finset (Fin dtbNrCpus) :=
  Finset.univ.filter fun h => configOf config h = .ok i

/-- The barrier of a machine counts its harts. -/
theorem Assigned.card_members (hconfig : Assigned config) {i : Nat} (hi : i < config.length) :
    countSetBits (affinity config i) = (members config i).card := by
  rw [countSetBits_of_lt (hconfig.toNat_lt hi), ← harts_configOf hconfig.disjoint hi,
    ← Finset.card_map Fin.valEmbedding]
  congr 1
  ext h
  simp only [members, Finset.mem_filter, Finset.mem_range, Finset.mem_map, Finset.mem_univ, true_and,
    Fin.valEmbedding_apply]
  constructor
  · rintro ⟨hlt, hmachine⟩
    exact ⟨⟨h, hlt⟩, hmachine, rfl⟩
  · rintro ⟨h', hmachine, rfl⟩
    exact ⟨h'.isLt, hmachine⟩

end Configuration

/-! Where a hart is with respect to each of the two barriers. -/

section Views

/-- The hart as a user of the barrier of all harts. -/
def Point.allHart : Point → Barrier.Hart
  | .entry | .initBarrier _ _ | .checkCpuConfiguration => ⟨.idle, 0, 0⟩
  | .waitAll pc => calling pc
  | _ => ⟨.idle, 1, 1⟩

/-- The hart as a user of the barrier of its machine. -/
def Point.vmHart : Point → Barrier.Hart
  | .waitVm pc => calling pc
  | .initHs | .initVs | .vmEnter | .entered => ⟨.idle, 1, 1⟩
  | _ => ⟨.idle, 0, 0⟩

theorem afterWait_induction {P : Point → Prop} (wait : Barrier.Pc → Point) (returned : Point)
    (pc : Barrier.Pc) (hreturned : P returned) (hwait : ∀ pc, P (wait pc)) :
    P (afterWait wait returned pc) := by
  rw [afterWait]
  split
  · exact hreturned
  · exact hwait pc

theorem allHart_afterWait_waitAll (pc : Barrier.Pc) :
    (afterWait .waitAll .initVcpu pc).allHart = called pc := by
  rw [afterWait, called]
  split
  · rfl
  · rename_i hpc
    exact if_neg hpc

theorem vmHart_afterWait_waitAll (pc : Barrier.Pc) :
    (afterWait .waitAll .initVcpu pc).vmHart = ⟨.idle, 0, 0⟩ :=
  afterWait_induction (P := fun point => point.vmHart = ⟨.idle, 0, 0⟩) _ _ pc rfl fun _ => rfl

theorem vmHart_afterWait_waitVm (pc : Barrier.Pc) :
    (afterWait .waitVm .initHs pc).vmHart = called pc := by
  rw [afterWait, called]
  split
  · rfl
  · rename_i hpc
    exact if_neg hpc

theorem allHart_afterWait_waitVm (pc : Barrier.Pc) :
    (afterWait .waitVm .initHs pc).allHart = ⟨.idle, 1, 1⟩ :=
  afterWait_induction (P := fun point => point.allHart = ⟨.idle, 1, 1⟩) _ _ pc rfl fun _ => rfl

/-- A hart that has not passed the first barrier has not come to the second. -/
theorem vmHart_of_returned {point : Point} (h : point.allHart.returned = 0) :
    point.vmHart = ⟨.idle, 0, 0⟩ := by
  cases point <;> first | rfl | exact absurd h Nat.one_ne_zero

def allView (harts : Fin dtbNrCpus → Hart) : Fin dtbNrCpus → Barrier.Hart :=
  fun h => (harts h).point.allHart

/-- The harts of a machine as the users of its barrier. -/
def vmView (config : List VmConfig) (i : Nat) (harts : Fin dtbNrCpus → Hart) :
    Fin (members config i).card → Barrier.Hart :=
  fun j => (harts ((members config i).orderEmbOfFin rfl j)).point.vmHart

variable {config : List VmConfig} {i : Nat} {h : Fin dtbNrCpus} {harts : Fin dtbNrCpus → Hart}

theorem allView_update (harts : Fin dtbNrCpus → Hart) (h : Fin dtbNrCpus) (hart : Hart) :
    allView (Function.update harts h hart) =
      Function.update (allView harts) h hart.point.allHart := by
  funext h'
  rcases eq_or_ne h' h with rfl | hne
  · rw [allView, Function.update_self, Function.update_self]
  · rw [allView, Function.update_of_ne hne, Function.update_of_ne hne, allView]

theorem allView_update_of_eq {hart : Hart} (heq : hart.point.allHart = (harts h).point.allHart) :
    allView (Function.update harts h hart) = allView harts := by
  rw [allView_update, heq]
  exact Function.update_eq_self h (allView harts)

theorem exists_orderEmbOfFin (hmachine : configOf config h = .ok i) :
    ∃ j, (members config i).orderEmbOfFin rfl j = h := by
  have hmem : h ∈ Set.range ((members config i).orderEmbOfFin rfl) := by
    rw [Finset.range_orderEmbOfFin]
    exact Finset.mem_filter.mpr ⟨Finset.mem_univ h, hmachine⟩
  exact hmem

theorem exists_vmView_update (harts : Fin dtbNrCpus → Hart) (hmachine : configOf config h = .ok i) :
    ∃ j, vmView config i harts j = (harts h).point.vmHart ∧
      ∀ hart, vmView config i (Function.update harts h hart) =
        Function.update (vmView config i harts) j hart.point.vmHart := by
  obtain ⟨j, rfl⟩ := exists_orderEmbOfFin hmachine
  refine ⟨j, rfl, fun hart => ?_⟩
  funext j'
  rcases eq_or_ne j' j with rfl | hne
  · rw [vmView, Function.update_self, Function.update_self]
  · rw [vmView, Function.update_of_ne hne, Function.update_of_ne fun heq => hne ?_]
    · rfl
    · exact ((members config i).orderEmbOfFin rfl).injective heq

theorem vmView_update_of_ne (hmachine : configOf config h ≠ .ok i) (hart : Hart) :
    vmView config i (Function.update harts h hart) = vmView config i harts := by
  funext j
  rw [vmView, vmView, Function.update_of_ne]
  rintro rfl
  have hmem := (members config i).orderEmbOfFin_mem rfl j
  exact hmachine (Finset.mem_filter.mp hmem).2

theorem vmView_update_of_eq {hart : Hart} (heq : hart.point.vmHart = (harts h).point.vmHart) :
    vmView config i (Function.update harts h hart) = vmView config i harts := by
  funext j
  rw [vmView, vmView]
  rcases eq_or_ne ((members config i).orderEmbOfFin rfl j) h with hj | hj
  · rw [hj, Function.update_self, heq]
  · rw [Function.update_of_ne hj]

end Views

/-! What holds in every state of a run. -/

section Invariant

/-- The hart has found its machine. -/
def Hart.Runs (config : List VmConfig) (h : Fin dtbNrCpus) (hart : Hart) : Prop :=
  ∃ i, configOf config h = .ok i ∧ hart.conf = some i ∧
    hart.vhartid = getVhartid (BitVec.ofNat 64 h) (affinity config i)

/-- What a hart knows when it is at a point. -/
def HartInv (config : List VmConfig) (h : Fin dtbNrCpus) (hart : Hart) : Point → Prop
  | .entry | .waitAll _ | .initVcpu => hart.conf = none ∧ hart.mapped = false
  | .initBarrier _ _ | .checkCpuConfiguration => h = 0 ∧ hart.conf = none ∧ hart.mapped = false
  | .initHsPgtable _ => hart.Runs config h ∧ hart.vhartid = 0
  | _ => hart.Runs config h ∧ (hart.mapped = true ↔ hart.vhartid = 0)

/-- How far `init_vm_barriers` is when hart 0 is at `point`. -/
def SetUp (config : List VmConfig) (ready : Nat → Bool) (bars : Nat → BarrierWords) :
    Point → Prop
  | .entry => ∀ j, ready j = false
  | .initBarrier i field =>
      (∀ j, ready j = true ↔ j < i) ∧
        (field ≠ .tokens → i < config.length ∧
          (bars i).tokens = countSetBits (affinity config i)) ∧
        (field = .lock → (bars i).initial = countSetBits (affinity config i))
  | _ => ∀ j < config.length, ready j = true

structure Inv (config : List VmConfig) (s : State) : Prop where
  harts : ∀ h, HartInv config h (s.harts h) (s.harts h).point
  all : InUse s.bar (allView s.harts)
  setUp : SetUp config s.ready s.bars (s.harts 0).point
  vms : ∀ i < config.length, s.ready i = true → InUse (s.bars i) (vmView config i s.harts)

variable {config : List VmConfig} {s : State} {h : Fin dtbNrCpus}

theorem inv_init (hs : Init s) : Inv config s := by
  have hpoint : ∀ h, (s.harts h).point = .entry := by
    intro h
    rw [hs.harts h]
  refine ⟨fun h => ?_, ?_, ?_, fun i _ hready => ?_⟩
  · rw [hs.harts h]
    exact ⟨rfl, rfl⟩
  · rw [hs.bar]
    refine inUse_init rfl rfl rfl fun h => ?_
    rw [allView, hpoint h]
    rfl
  · rw [hpoint 0]
    exact hs.ready
  · rw [hs.ready i] at hready
    cases hready

theorem HartInv.goto {hart : Hart} {point : Point} (hhart : HartInv config h hart point) :
    HartInv config h { hart with point := point } point := by
  cases point <;> exact hhart

theorem hartInv_update {harts : Fin dtbNrCpus → Hart}
    (hharts : ∀ h, HartInv config h (harts h) (harts h).point) {hart : Hart}
    (hhart : HartInv config h hart hart.point) (h' : Fin dtbNrCpus) :
    HartInv config h' (Function.update harts h hart h') (Function.update harts h hart h').point := by
  rcases eq_or_ne h' h with rfl | hne
  · rwa [Function.update_self]
  · rw [Function.update_of_ne hne]
    exact hharts h'

theorem setUp_update {ready : Nat → Bool} {bars : Nat → BarrierWords}
    {harts : Fin dtbNrCpus → Hart} {hart : Hart}
    (hother : h ≠ 0 → SetUp config ready bars (harts 0).point)
    (hself : h = 0 → SetUp config ready bars hart.point) :
    SetUp config ready bars (Function.update harts h hart 0).point := by
  rcases eq_or_ne h 0 with rfl | hne
  · rw [Function.update_self]
    exact hself rfl
  · rw [Function.update_of_ne hne.symm]
    exact hother hne

/-- A step from `point` that touches no barrier. -/
theorem Inv.setHart (hs : Inv config s) {point : Point} (hpoint : (s.harts h).point = point)
    (mem : KernelMem) {hart : Hart} (hhart : HartInv config h hart hart.point)
    (hall : hart.point.allHart = point.allHart) (hvm : hart.point.vmHart = point.vmHart)
    (hsetUp : h = 0 → SetUp config s.ready s.bars point → SetUp config s.ready s.bars hart.point) :
    Inv config { s with mem := mem, harts := Function.update s.harts h hart } := by
  subst hpoint
  refine ⟨hartInv_update hs.harts hhart, ?_, setUp_update (fun _ => hs.setUp) ?_, ?_⟩
  · rw [allView_update_of_eq hall]
    exact hs.all
  · rintro rfl
    exact hsetUp rfl hs.setUp
  · intro i hi hready
    rw [vmView_update_of_eq hvm]
    exact hs.vms i hi hready

theorem Inv.goto (hs : Inv config s) {point point' : Point} (hpoint : (s.harts h).point = point)
    (mem : KernelMem)
    (hhart : HartInv config h (s.harts h) point → HartInv config h (s.harts h) point')
    (hall : point'.allHart = point.allHart) (hvm : point'.vmHart = point.vmHart)
    (hsetUp : h = 0 → SetUp config s.ready s.bars point → SetUp config s.ready s.bars point') :
    Inv config ({ s with mem := mem }.goto h point') := by
  refine hs.setHart hpoint mem (HartInv.goto (hhart ?_)) hall hvm hsetUp
  rw [← hpoint]
  exact hs.harts h

/-- A hart that has passed the first barrier finds all barriers of the machines set up. -/
theorem Inv.ready_of_returned (hs : Inv config s)
    (hreturned : (s.harts h).point.allHart.returned = 1) {i : Nat} (hi : i < config.length) :
    s.ready i = true := by
  have hstarted := hs.all.separated h 0
  rw [allView, allView, hreturned] at hstarted
  have hsetUp := hs.setUp
  cases hpoint : (s.harts 0).point with
  | entry =>
      rw [hpoint] at hstarted
      exact absurd hstarted (Nat.not_succ_le_zero 0)
  | initBarrier =>
      rw [hpoint] at hstarted
      exact absurd hstarted (Nat.not_succ_le_zero 0)
  | _ =>
      rw [hpoint] at hsetUp
      exact hsetUp i hi

/-- While hart 0 is in `init_vm_barriers` no hart has come to the barrier of its machine. -/
theorem Inv.vmView_of_setUp (hs : Inv config s) (hstarted : (s.harts 0).point.allHart.started = 0)
    (i : Nat) (j : Fin (members config i).card) : vmView config i s.harts j = ⟨.idle, 0, 0⟩ := by
  apply vmHart_of_returned
  have hle := hs.all.separated ((members config i).orderEmbOfFin rfl j) 0
  rw [allView, allView, hstarted] at hle
  exact Nat.le_zero.mp hle

/-- After `init_vm_barriers` the invariant does not depend on the words of the barriers. -/
theorem SetUp.of_started {ready : Nat → Bool} {bars bars' : Nat → BarrierWords} {point : Point}
    (hstarted : point.allHart.started ≠ 0) (hsetUp : SetUp config ready bars point) :
    SetUp config ready bars' point := by
  cases point with
  | entry => exact hsetUp
  | initBarrier => exact absurd rfl hstarted
  | _ => exact hsetUp

theorem Inv.step_waitAll (hs : Inv config s) {pc : Barrier.Pc} (hpoint : (s.harts h).point = .waitAll pc) :
    Inv config ({ s with bar := (waitBarrier s.bar pc).1 }.goto h
      (afterWait .waitAll .initVcpu (waitBarrier s.bar pc).2)) := by
  have hhart := hs.harts h
  have hview : allView s.harts h = calling pc := by
    rw [allView, hpoint]
    rfl
  have hvm : (s.harts h).point.vmHart = ⟨.idle, 0, 0⟩ := by
    rw [hpoint]
    rfl
  rw [hpoint] at hhart
  refine ⟨hartInv_update hs.harts ?_, ?_, setUp_update (fun _ => hs.setUp) ?_, fun i hi hready => ?_⟩
  · exact (afterWait_induction (P := HartInv config h (s.harts h)) .waitAll .initVcpu _ hhart
      fun _ => hhart).goto
  · simp only [State.goto, State.setHart]
    rw [allView_update, allHart_afterWait_waitAll]
    exact hs.all.wait hview
  · rintro rfl
    have hsetUp := hs.setUp
    rw [hpoint] at hsetUp
    exact afterWait_induction (P := SetUp config s.ready s.bars) .waitAll .initVcpu _ hsetUp
      fun _ => hsetUp
  · simp only [State.goto, State.setHart]
    rw [vmView_update_of_eq ((vmHart_afterWait_waitAll _).trans hvm.symm)]
    exact hs.vms i hi hready

theorem Inv.step_waitVm (hs : Inv config s) {pc : Barrier.Pc} {i : Nat}
    (hpoint : (s.harts h).point = .waitVm pc) (hmachine : configOf config h = .ok i) :
    Inv config ((s.setBar i (waitBarrier (s.bars i) pc).1).goto h
      (afterWait .waitVm .initHs (waitBarrier (s.bars i) pc).2)) := by
  have hhart := hs.harts h
  have hall : (s.harts h).point.allHart = ⟨.idle, 1, 1⟩ := by
    rw [hpoint]
    rfl
  have hstarted := hs.all.separated h 0
  rw [allView, allView, hall] at hstarted
  rw [hpoint] at hhart
  refine ⟨hartInv_update hs.harts ?_, ?_, setUp_update (fun _ => ?_) ?_, fun i' hi' hready => ?_⟩
  · exact (afterWait_induction (P := HartInv config h (s.harts h)) .waitVm .initHs _ hhart
      fun _ => hhart).goto
  · simp only [State.goto, State.setHart, State.setBar]
    rw [allView_update_of_eq ((allHart_afterWait_waitVm _).trans hall.symm)]
    exact hs.all
  · exact hs.setUp.of_started (Nat.ne_of_gt hstarted)
  · rintro rfl
    have hsetUp := hs.setUp
    rw [hpoint] at hsetUp
    exact afterWait_induction (P := SetUp config s.ready _) .waitVm .initHs _ hsetUp
      fun _ => hsetUp
  · simp only [State.goto, State.setHart, State.setBar] at hready ⊢
    rcases eq_or_ne i' i with rfl | hne
    · obtain ⟨j, hview, hupdate⟩ := exists_vmView_update s.harts hmachine
      rw [hpoint] at hview
      rw [Function.update_self, hupdate, vmHart_afterWait_waitVm]
      exact (hs.vms i' hi' hready).wait hview
    · have hother : configOf config h ≠ .ok i' := by
        rw [hmachine]
        exact fun heq => hne (Except.ok.inj heq).symm
      rw [Function.update_of_ne hne, vmView_update_of_ne hother]
      exact hs.vms i' hi' hready

/-- A store of hart 0 to a barrier that is not ready yet. -/
theorem Inv.store (hconfig : Assigned config) (hs : Inv config s) {i i' : Nat}
    {field field' : BarrierField} (hpoint : (s.harts 0).point = .initBarrier i field)
    {bar : BarrierWords} {ready : Nat → Bool}
    (hothers : ∀ j, j ≠ i → ready j = true → s.ready j = true)
    (hself : ready i = true → bar.initial = countSetBits (affinity config i) ∧
      bar.tokens = countSetBits (affinity config i) ∧ bar.locked = 0)
    (hsetUp : SetUp config ready (Function.update s.bars i bar) (.initBarrier i' field')) :
    Inv config ({ s.setBar i bar with ready := ready }.goto 0 (.initBarrier i' field')) := by
  have hhart := hs.harts 0
  have hall : (s.harts 0).point.allHart = ⟨.idle, 0, 0⟩ := by
    rw [hpoint]
    rfl
  have hview := hs.vmView_of_setUp (by rw [hall])
  have hvm : (s.harts 0).point.vmHart = ⟨.idle, 0, 0⟩ := by
    rw [hpoint]
    rfl
  rw [hpoint] at hhart
  refine ⟨hartInv_update hs.harts hhart, ?_, setUp_update (fun hne => absurd rfl hne) fun _ => hsetUp,
    fun j hj hready => ?_⟩
  · simp only [State.goto, State.setHart, State.setBar]
    rw [allView_update_of_eq]
    · exact hs.all
    · exact hall.symm
  · simp only [State.goto, State.setHart, State.setBar] at hready ⊢
    have hsame : vmView config j (Function.update s.harts 0
        { s.harts 0 with point := .initBarrier i' field' }) = vmView config j s.harts :=
      vmView_update_of_eq hvm.symm
    rw [hsame]
    rcases eq_or_ne j i with rfl | hne
    · obtain ⟨hinitial, htokens, hlocked⟩ := hself hready
      rw [hconfig.card_members hj] at hinitial htokens
      rw [Function.update_self]
      exact inUse_init hinitial htokens hlocked (hview j)
    · rw [Function.update_of_ne hne]
      exact hs.vms j hj (hothers j hne hready)

theorem Inv.step_initBarrier (hconfig : Assigned config) (hs : Inv config s) {i : Nat}
    {field : BarrierField} (hpoint : (s.harts 0).point = .initBarrier i field)
    (hloop : ¬ (field = .tokens ∧ config.length ≤ i)) :
    Inv config (initBarrierStep s 0 i (countSetBits (affinity config i)) field) := by
  have hsetUp := hs.setUp
  rw [hpoint] at hsetUp
  obtain ⟨hready, htokens, hinitial⟩ := hsetUp
  have hnot : s.ready i ≠ true := fun h => absurd ((hready i).mp h) (Nat.lt_irrefl i)
  cases field with
  | tokens =>
      have hi : i < config.length := Nat.lt_of_not_le fun hle => hloop ⟨rfl, hle⟩
      refine hs.store hconfig hpoint (fun _ _ h => h) (fun h => absurd h hnot) ⟨hready, fun _ => ?_, nofun⟩
      exact ⟨hi, by rw [Function.update_self]⟩
  | initial =>
      obtain ⟨hi, htokens⟩ := htokens nofun
      refine hs.store hconfig hpoint (fun _ _ h => h) (fun h => absurd h hnot) ⟨hready, fun _ => ?_, fun _ => ?_⟩
      · exact ⟨hi, by rw [Function.update_self, htokens]⟩
      · rw [Function.update_self]
  | lock =>
      obtain ⟨hi, htokens⟩ := htokens nofun
      refine hs.store hconfig hpoint (fun j hne h => ?_) (fun _ => ⟨hinitial rfl, htokens, rfl⟩)
        ⟨fun j => ?_, fun hne => absurd rfl hne, nofun⟩
      · rwa [Function.update_of_ne hne] at h
      · rcases eq_or_ne j i with rfl | hne
        · simp
        · rw [Function.update_of_ne hne, hready]
          omega

theorem Inv.step_initVcpu (hs : Inv config s) (hpoint : (s.harts h).point = .initVcpu) {i : Nat}
    (hmachine : configOf config h = .ok i) {conf : VmConfig} (hconf : config[i]? = some conf) :
    Inv config (s.setHart h
      { s.harts h with
        point := if (initVcpu (BitVec.ofNat 64 h) conf).vhartid = 0 then
            .initHsPgtable (initHsPgtable conf) else .waitVm .idle
        conf := some i
        vhartid := (initVcpu (BitVec.ofNat 64 h) conf).vhartid }) := by
  have hhart := hs.harts h
  rw [hpoint] at hhart
  have haffinity : affinity config i = conf.cpuAffinity := by
    rw [affinity, hconf]
    rfl
  have hruns : ∀ point, Hart.Runs config h
      { s.harts h with
        point := point
        conf := some i
        vhartid := (initVcpu (BitVec.ofNat 64 h) conf).vhartid } := by
    intro point
    refine ⟨i, hmachine, rfl, ?_⟩
    rw [haffinity]
    rfl
  split
  · rename_i hzero
    exact hs.setHart hpoint s.mem ⟨hruns _, hzero⟩ rfl rfl fun _ hsetUp => hsetUp
  · rename_i hne
    refine hs.setHart hpoint s.mem ⟨hruns _, ?_⟩ rfl rfl fun _ hsetUp => hsetUp
    exact iff_of_false (by rw [hhart.2]; exact Bool.false_ne_true) hne

theorem Inv.step (hconfig : Assigned config) (hs : Inv config s) {t : State}
    (hstep : step config s h = some t) : Inv config t := by
  have hhart := hs.harts h
  cases hpoint : (s.harts h).point with
  | entry =>
      simp only [VmRun.step, hpoint] at hstep
      cases hstep
      split
      · rename_i hzero
        refine hs.goto hpoint s.mem (fun hhart => ⟨Fin.ext hzero, hhart⟩) rfl rfl fun _ hready => ?_
        exact ⟨fun j => by simp [hready j], nofun, nofun⟩
      · rename_i hne
        exact hs.goto hpoint s.mem id rfl rfl fun hzero => absurd (congrArg Fin.val hzero) hne
  | initBarrier i field =>
      rw [hpoint] at hhart
      obtain ⟨rfl, -⟩ := hhart
      simp only [VmRun.step, hpoint] at hstep
      split at hstep
      · rename_i hdone
        cases hstep
        refine hs.goto hpoint s.mem id rfl rfl fun _ hsetUp j hj => ?_
        exact (hsetUp.1 j).mpr (hj.trans_le hdone.2)
      · rename_i hloop
        cases hstep
        exact hs.step_initBarrier hconfig hpoint hloop
  | checkCpuConfiguration =>
      simp only [VmRun.step, hpoint] at hstep
      split at hstep
      · cases hstep
        exact hs.goto hpoint s.mem And.right rfl rfl fun _ => id
      · cases hstep
  | waitAll pc =>
      simp only [VmRun.step, hpoint] at hstep
      cases hstep
      exact hs.step_waitAll hpoint
  | initVcpu =>
      simp only [VmRun.step, hpoint] at hstep
      split at hstep
      · cases hstep
      · rename_i i hmachine
        obtain ⟨conf, hconf, rfl⟩ := Option.map_eq_some_iff.mp hstep
        exact hs.step_initVcpu hpoint hmachine hconf
  | initHsPgtable rest =>
      rw [hpoint] at hhart
      cases rest with
      | done =>
          simp only [VmRun.step, hpoint] at hstep
          cases hstep
          exact hs.setHart hpoint s.mem ⟨hhart.1, iff_of_true rfl hhart.2⟩ rfl rfl fun _ => id
      | panic message =>
          simp only [VmRun.step, hpoint] at hstep
          cases hstep
      | access o k =>
          simp only [VmRun.step, hpoint] at hstep
          cases hstep
          exact hs.goto hpoint _ id rfl rfl fun _ => id
  | waitVm pc =>
      rw [hpoint] at hhart
      obtain ⟨⟨i, hmachine, hconf, -⟩, -⟩ := hhart
      simp only [VmRun.step, hpoint, hconf, Option.map_some] at hstep
      cases hstep
      exact hs.step_waitVm hpoint hmachine
  | initHs =>
      simp only [VmRun.step, hpoint] at hstep
      cases hstep
      exact hs.goto hpoint s.mem id rfl rfl fun _ => id
  | initVs =>
      simp only [VmRun.step, hpoint] at hstep
      cases hstep
      exact hs.goto hpoint s.mem id rfl rfl fun _ => id
  | vmEnter =>
      simp only [VmRun.step, hpoint] at hstep
      cases hstep
      exact hs.goto hpoint s.mem id rfl rfl fun _ => id
  | entered =>
      simp only [VmRun.step, hpoint] at hstep
      cases hstep

/-- A hart that waits on the barrier of its machine, or has passed it, has left
`init_hs_pgtable` if it was there at all. -/
theorem HartInv.of_started {hart : Hart} {point : Point} (hstarted : point.vmHart.started ≠ 0)
    (hhart : HartInv config h hart point) :
    hart.Runs config h ∧ (hart.mapped = true ↔ hart.vhartid = 0) := by
  cases point <;> first | exact hhart | exact absurd rfl hstarted

/-- Only a hart with virtual id 0 runs `init_hs_pgtable`. -/
theorem HartInv.leads {hart : Hart} (hhart : HartInv config h hart hart.point)
    (hpgtable : hart.runsPgtable) {i : Nat} (hconf : hart.conf = some i) : Leads config i h := by
  have hzero : hart.Runs config h ∧ hart.vhartid = 0 := by
    rcases hpgtable with hmapped | ⟨rest, hpoint⟩
    · cases hpoint : hart.point <;> rw [hpoint] at hhart
      case entry | waitAll | initVcpu => exact absurd (hmapped.symm.trans hhart.2) nofun
      case initBarrier | checkCpuConfiguration => exact absurd (hmapped.symm.trans hhart.2.2) nofun
      case initHsPgtable => exact hhart
      all_goals exact ⟨hhart.1, hhart.2.mp hmapped⟩
    · rw [hpoint] at hhart
      exact hhart
  obtain ⟨⟨i', hmachine, hconf', hvhartid⟩, hzero⟩ := hzero
  obtain rfl : i' = i := Option.some.inj (hconf'.symm.trans hconf)
  exact ⟨hmachine, hvhartid.symm.trans hzero⟩

theorem Inv.mapped_of_pastBarriers (hconfig : Assigned config) (hs : Inv config s) {i : Nat}
    (hmachine : configOf config h = .ok i) (hpast : (s.harts h).point.pastBarriers)
    {leader : Fin dtbNrCpus} (hleads : Leads config i leader) : (s.harts leader).mapped = true := by
  have hviews : (s.harts h).point.allHart = ⟨.idle, 1, 1⟩ ∧
      (s.harts h).point.vmHart = ⟨.idle, 1, 1⟩ := by
    cases hpoint : (s.harts h).point <;> rw [hpoint] at hpast <;>
      first | exact hpast.elim | exact ⟨rfl, rfl⟩
  have hi := hconfig.lt_of_configOf hmachine
  have hready := hs.ready_of_returned (h := h) (by rw [hviews.1]) hi
  obtain ⟨j, hj, -⟩ := exists_vmView_update s.harts hmachine
  obtain ⟨j', hj', -⟩ := exists_vmView_update s.harts hleads.1
  have hstarted := (hs.vms i hi hready).separated j j'
  rw [hj, hj', hviews.2] at hstarted
  obtain ⟨⟨i', hmachine', -, hvhartid⟩, hmapped⟩ := (hs.harts leader).of_started (Nat.ne_of_gt hstarted)
  obtain rfl : i' = i := Except.ok.inj (hmachine'.symm.trans hleads.1)
  exact hmapped.mpr (hvhartid.trans hleads.2)

end Invariant

/-- In every run of `vm_run` on all harts, no hart sets up or enters the guest before
the hart with virtual id 0 of its machine has mapped it, only that hart maps it, and
no hart waits on a barrier that hart 0 has not initialised. -/
theorem vmRun_ordered (config : List VmConfig) (hconfig : Assigned config) (s : State)
    (hs : Reachable (step config) (fun _ _ => True) Init s) : Ordered config s := by
  have hinv : Inv config s :=
    hs.invariant (Inv config) (fun s => inv_init) fun s h t hs _ hstep => hs.step hconfig hstep
  constructor
  · intro h i hconf hpast
    have hruns : (s.harts h).Runs config h := by
      refine ((hinv.harts h).of_started ?_).1
      cases hpoint : (s.harts h).point <;> rw [hpoint] at hpast <;>
        first | exact hpast.elim | exact Nat.one_ne_zero
    obtain ⟨i', hmachine, hconf', -⟩ := hruns
    obtain rfl : i' = i := Option.some.inj (hconf'.symm.trans hconf)
    obtain ⟨leader, hleader⟩ := hconfig.exists_leader (hconfig.lt_of_configOf hmachine)
    refine ⟨leader, ?_, hleader⟩
    exact hinv.mapped_of_pastBarriers hconfig hmachine hpast ((hleader leader).mpr rfl)
  · intro h h' i hconf hconf' hpgtable hpgtable'
    have hleads := (hinv.harts h).leads hpgtable hconf
    obtain ⟨leader, hleader⟩ := hconfig.exists_leader (hconfig.lt_of_configOf hleads.1)
    have hleads' := (hinv.harts h').leads hpgtable' hconf'
    exact ((hleader h).mp hleads).trans ((hleader h').mp hleads').symm
  · intro h i pc hconf hpoint
    have hhart := hinv.harts h
    rw [hpoint] at hhart
    obtain ⟨⟨i', hmachine, hconf', -⟩, -⟩ := hhart
    obtain rfl : i' = i := Option.some.inj (hconf'.symm.trans hconf)
    refine hinv.ready_of_returned (h := h) ?_ (hconfig.lt_of_configOf hmachine)
    rw [hpoint]
    rfl

section Sample

/-- One machine on both harts, with a page of image and a page of RAM. -/
def sampleConfig : List VmConfig :=
  [{ sampleConf with
    cpuAffinity := 3
    imageEnd := 0x80201000
    memorySize := 0x2000
    devices := #v[none, none, none, none, none, none, none, none, none, none] }]

theorem sampleConfig_assigned : Assigned sampleConfig := by
  have hbit : ∀ h < dtbNrCpus, (affinity sampleConfig 0).getLsbD h = true := by decide
  have hzero : ∀ i < sampleConfig.length, i = 0 := by decide
  refine ⟨fun h hh => ⟨0, ⟨by decide, hbit h hh⟩, fun i hi => hzero i hi.1⟩, ?_, ?_⟩
  · intro i hi
    rw [hzero i hi]
    exact ⟨0, by decide, hbit 0 (by decide)⟩
  · intro i hi h hge
    rw [hzero i hi]
    exact Nat.testBit_lt_two_pow (Nat.lt_of_lt_of_le (by decide : 3 < 2 ^ dtbNrCpus)
      (Nat.pow_le_pow_right (by decide) hge))

/-- Three free pages. -/
def sampleMem : KernelMem where
  mem a :=
    if a = 0xffffffe001000000 then 0xffffffe001001000
    else if a = 0xffffffe001001000 then 0xffffffe001002000
    else 0
  freelist := 0xffffffe001000000

def sampleStart : State where
  bar := barrierInitializer dtbNrCpus
  bars := fun _ => barrierInitializer 0
  ready := fun _ => false
  mem := sampleMem
  harts := fun _ => ⟨.entry, none, 0, false⟩

/-- The hart has made all accesses of `init_hs_pgtable`. -/
def finishMapping (s : State) (h : Fin dtbNrCpus) : Option State :=
  match (s.harts h).point with
  | .initHsPgtable rest =>
      match exec heapHandler rest s.mem with
      | (.ok (), mem) => some ({ s with mem := mem }.goto h (.initHsPgtable (.done ())))
      | (.error _, _) => none
  | _ => none

theorem exists_run_initHsPgtable (config : List VmConfig) {s : State} {h : Fin dtbNrCpus}
    {rest : KernelM Unit} {mem : KernelMem} (hpoint : (s.harts h).point = .initHsPgtable rest)
    (hexec : exec heapHandler rest s.mem = (.ok (), mem)) :
    ∃ n, run (step config) s (List.replicate n h) =
      some ({ s with mem := mem }.goto h (.initHsPgtable (.done ()))) := by
  induction rest generalizing s with
  | done =>
      cases hexec
      refine ⟨0, ?_⟩
      rw [State.goto, State.setHart, ← hpoint, Function.update_eq_self]
      rfl
  | panic message => cases hexec
  | access o k ih =>
      have hpoint' : (({ s with mem := (heapHandler o s.mem).2 }.goto h
          (.initHsPgtable (k (heapHandler o s.mem).1))).harts h).point =
            .initHsPgtable (k (heapHandler o s.mem).1) := by
        simp [State.goto, State.setHart]
      obtain ⟨n, hrun⟩ := ih _ hpoint' hexec
      refine ⟨n + 1, ?_⟩
      rw [List.replicate_succ, run, step, hpoint, Option.bind_some, hrun]
      simp [State.goto, State.setHart]

theorem exists_run_of_finishMapping (config : List VmConfig) {s t : State} {h : Fin dtbNrCpus}
    (hfinish : finishMapping s h = some t) :
    ∃ n, run (step config) s (List.replicate n h) = some t := by
  unfold finishMapping at hfinish
  split at hfinish
  · rename_i rest hpoint
    split at hfinish
    · rename_i mem hexec
      cases hfinish
      exact exists_run_initHsPgtable config hpoint hexec
    · cases hfinish
  · cases hfinish

/-- Hart 0 initialises the barriers, both harts pass the first one, and hart 1 waits
at the second one when hart 0 starts to map the guest. -/
def untilMapping : List (Fin dtbNrCpus) :=
  List.replicate 13 0 ++ List.replicate 10 1 ++ List.replicate 7 0 ++ List.replicate 9 1

/-- Hart 0 resets the second barrier, and hart 1 passes it and enters the guest. -/
def afterMapping : List (Fin dtbNrCpus) := List.replicate 10 0 ++ List.replicate 9 1

def sampleEnd : Option State :=
  (run (step sampleConfig) sampleStart untilMapping).bind fun s =>
    (finishMapping s 0).bind fun t => run (step sampleConfig) t afterMapping

instance : DecidablePred Point.pastBarriers
  | .initHs | .initVs | .vmEnter | .entered => isTrue trivial
  | .entry | .initBarrier _ _ | .checkCpuConfiguration | .waitAll _ | .initVcpu | .initHsPgtable _
  | .waitVm _ => isFalse id

theorem sampleEnd_entered : ∃ s, sampleEnd = some s ∧ (s.harts 1).conf.isSome ∧
    (s.harts 1).point.pastBarriers := by
  have hsome : sampleEnd.any fun s =>
      (s.harts 1).conf.isSome && decide (s.harts 1).point.pastBarriers := by decide +kernel
  obtain ⟨s, hs, hdone⟩ := (Option.any_eq_true _ _).mp hsome
  rw [Bool.and_eq_true, decide_eq_true_iff] at hdone
  exact ⟨s, hs, hdone⟩

/-- Hart 1 enters the guest that hart 0 has mapped. -/
theorem vmRun_ordered_entered : Assigned sampleConfig ∧
    ∃ s, Reachable (step sampleConfig) (fun _ _ => True) Init s ∧
      (s.harts 1).conf.isSome ∧ (s.harts 1).point.pastBarriers ∧ Ordered sampleConfig s := by
  obtain ⟨s, hend, hconf, hpast⟩ := sampleEnd_entered
  obtain ⟨s₁, huntil, hrest⟩ := Option.bind_eq_some_iff.mp hend
  obtain ⟨s₂, hfinish, hafter⟩ := Option.bind_eq_some_iff.mp hrest
  obtain ⟨n, hmapping⟩ := exists_run_of_finishMapping sampleConfig hfinish
  have hrun := run_trans (run_trans huntil hmapping) hafter
  have hs : Reachable (step sampleConfig) (fun _ _ => True) Init s :=
    Reachable.of_run (fun _ _ => trivial) (.start ⟨rfl, fun _ => rfl, fun _ => rfl⟩) hrun
  exact ⟨sampleConfig_assigned, s, hs, hconf, hpast,
    vmRun_ordered sampleConfig sampleConfig_assigned s hs⟩

end Sample

end RiscvHypervisor.VmRun
