import RiscvHypervisor.InterruptDelivery

/-!
What the guest reads from its claim register.  The load does not consume the
interrupt: until it is completed, every further load returns it again.
-/

namespace RiscvHypervisor.ClaimDelivery

open RiscvHypervisor.TransitionSystem
open RiscvHypervisor.EffectProgram
open RiscvHypervisor.MachineTypes
open RiscvHypervisor.GuestConfig
open RiscvHypervisor.PlicDriver
open RiscvHypervisor.VirtualCpu
open RiscvHypervisor.VirtualPlic
open RiscvHypervisor.EmulatedAccess
open RiscvHypervisor.RegisterMap
open RiscvHypervisor.PlicSystem
open RiscvHypervisor.InterruptDelivery

/-- The instruction accesses the claim register of the virtual context. -/
def AtClaim (context : Nat) (instr : Instr) : Prop :=
  Located (instr.addr - dtbPlic) (.claim context)

instance (context : Nat) (instr : Instr) : Decidable (AtClaim context instr) :=
  inferInstanceAs (Decidable (Located _ _))

/-- The virtual source of a physical one. -/
def virtOf (conf : VmConfig) (irq : Uint32) : Uint32 :=
  ofInt (physToVirtIrq conf.devices (toInt irq))

/-- Between two loads of a claim register that return the same virtual source,
the hart has claimed a physical source of that number. -/
def HandedOnce (h : Fin dtbNrCpus) (conf : VmConfig) (m : Machine) (es : List Event) : Prop :=
  ∀ past instr between instr' rest context context' m₁ m₁' m₂ m₂',
    es = past ++ .load h instr :: (between ++ .load h instr' :: rest) →
    run step m past = some m₁ → step m₁ (.load h instr) = some m₁' →
    run step m₁' between = some m₂ → step m₂ (.load h instr') = some m₂' →
    AtClaim context instr → AtClaim context' instr' →
    loaded m₁' h instr ≠ 0 → loaded m₂' h instr' = loaded m₁' h instr →
    ∃ irq, Event.interrupt h irq ∈ between ∧ virtOf conf irq = loaded m₁' h instr

/-- The hart has taken an interrupt, and since then neither another one nor a
load of its claim register. -/
def Unread (h : Fin dtbNrCpus) (context : Nat) (past : List Event) : Prop :=
  ∃ old irq new, past = old ++ .interrupt h irq :: new ∧
    (∀ irq', Event.interrupt h irq' ∉ new) ∧
    ∀ instr, Event.load h instr ∈ new → ¬ AtClaim context instr

/-- Whenever the guest loads its claim register and the source claimed last has a
virtual number, an interrupt has been claimed and not been read yet. -/
def ReadsOnce (h : Fin dtbNrCpus) (m : Machine) (es : List Event) : Prop :=
  ∀ past instr rest m', es = past ++ .load h instr :: rest → run step m past = some m' →
    AtClaim (virtualContext (m'.harts h).vcpu) instr →
    physToVirtIrq (m'.harts h).vcpu.conf.devices (toInt (last h m')) ≠ 0 →
    last h m' ≠ 0 ∧ Unread h (virtualContext (m'.harts h).vcpu) past

section Runs

variable {h : Fin dtbNrCpus} {confs : Fin dtbNrCpus → VmConfig} {m m' : Machine}

theorem hosts_run (hm : Hosts confs m) {es : List Event} (hrun : run step m es = some m') :
    Hosts confs m' := by
  induction es generalizing m with
  | nil => exact Option.some.inj hrun ▸ hm
  | cons e es ih =>
      obtain ⟨t, hstep, hrest⟩ := Option.bind_eq_some_iff.mp hrun
      exact ih (hm.step hstep) hrest

/-- A load of a claim register returns the virtual number of the source claimed
last, or 0 if the context is not the hart's own. -/
theorem loaded_claim (hm : Hosts confs m) {instr : Instr} {context : Nat}
    (hclaim : AtClaim context instr) (hstep : step m (.load h instr) = some m') :
    loaded m' h instr =
      if context = virtualContext (m.harts h).vcpu then virtOf (confs h) (last h m) else 0 := by
  have hexec : exec plicHandler (loadReg (hartidOf h) (m.harts h).vcpu (.claim context)) m.plic =
      (.ok (if context = virtualContext (m.harts h).vcpu then virtOf (confs h) (last h m) else 0),
        m.plic) := by
    rw [loadReg, virtOf, last, ← (hm h).1]
    split <;> rfl
  obtain ⟨m'', hstep', hvalue⟩ := step_load_of_located (hm.vhartid_lt h) hclaim hexec
  rw [hstep] at hstep'
  cases hstep'
  exact hvalue

theorem last_interrupt {irq : Uint32} (hstep : step m (.interrupt h irq) = some m') :
    last h m' = irq := by
  rw [step_interrupt] at hstep
  cases hstep
  simp [last, injected]

/-- Without an interrupt the source claimed last stays or is completed. -/
theorem last_of_run {es : List Event} (hes : ∀ irq, Event.interrupt h irq ∉ es)
    (hrun : run step m es = some m') : last h m' = last h m ∨ last h m' = 0 := by
  induction es generalizing m with
  | nil => exact .inl (by rw [Option.some.inj hrun])
  | cons e es ih =>
      obtain ⟨t, hstep, hrest⟩ := Option.bind_eq_some_iff.mp hrun
      have hnext := ih (fun irq hin => hes irq (by simp [hin])) hrest
      rcases hart_cases h hstep with ⟨hkeeps, -⟩ | ⟨instr, sepc, -, heq⟩ | ⟨irq, rfl, -⟩
      · rwa [show last h t = last h m from hkeeps.last] at hnext
      · have hzero : last h t = 0 := by rw [last, heq]; rfl
        rw [hzero, or_self] at hnext
        exact .inr hnext
      · exact absurd (by simp) (hes irq)

/-- The interrupt that has not been read came after any load that read one. -/
theorem mem_between_of_unread {past between : List Event} {instr : Instr} {context : Nat}
    (hclaim : AtClaim context instr)
    (hunread : Unread h context (past ++ .load h instr :: between)) :
    ∃ old irq new, between = old ++ .interrupt h irq :: new ∧
      ∀ irq', Event.interrupt h irq' ∉ new := by
  obtain ⟨old, irq, new, hsplit, hnone, hloads⟩ := hunread
  rcases List.append_eq_append_iff.mp hsplit with ⟨tail, rfl, htail⟩ | ⟨tail, rfl, htail⟩
  · cases tail with
    | nil => cases htail
    | cons e tail =>
        obtain ⟨-, rfl⟩ := List.cons.inj htail
        exact ⟨tail, irq, new, rfl, hnone⟩
  · cases tail with
    | nil => cases htail
    | cons e tail =>
        obtain ⟨-, rfl⟩ := List.cons.inj htail
        exact absurd hclaim (hloads instr (by simp))

theorem virtualContext_eq (hm : Hosts confs m) (hm' : Hosts confs m') :
    virtualContext (m'.harts h).vcpu = virtualContext (m.harts h).vcpu := by
  rw [virtualContext, virtualContext, (hm h).2, (hm' h).2]

end Runs

/-- In every run in which the guest reads each interrupt once before it is
completed, none is handed to it twice. -/
theorem handedOnce_of_readsOnce {h : Fin dtbNrCpus} {confs : Fin dtbNrCpus → VmConfig}
    {sepc : Fin dtbNrCpus → Uint64} {plic : Plic} {es : List Event}
    (hreads : ReadsOnce h (Machine.boot confs sepc plic) es) :
    HandedOnce h (confs h) (Machine.boot confs sepc plic) es := by
  intro past instr between instr' rest context context' m₁ m₁' m₂ m₂' hes hpast hload hbetween
    hload' hclaim hclaim' hne hsame
  have hm₁ := hosts_run (hosts_boot confs sepc plic) hpast
  have hm₁' := hm₁.step hload
  have hm₂ := hosts_run hm₁' hbetween
  have hrun : run step (Machine.boot confs sepc plic) (past ++ .load h instr :: between) =
      some m₂ := by
    refine run_trans hpast ?_
    rwa [run, hload]
  -- Both loads are of the hart's own context, for they return a source.
  have hvalue := loaded_claim hm₁ hclaim hload
  have hvalue' := loaded_claim hm₂ hclaim' hload'
  obtain rfl : context = virtualContext (m₁.harts h).vcpu := by
    by_contra hother
    rw [if_neg hother] at hvalue
    exact hne hvalue
  obtain rfl : context' = virtualContext (m₂.harts h).vcpu := by
    by_contra hother
    rw [if_neg hother] at hvalue'
    exact hne (hsame.symm.trans hvalue')
  rw [if_pos rfl] at hvalue'
  have hvirt : physToVirtIrq (m₂.harts h).vcpu.conf.devices (toInt (last h m₂)) ≠ 0 := by
    intro hzero
    rw [(hm₂ h).1] at hzero
    refine hne (hsame.symm.trans (hvalue'.trans ?_))
    rw [virtOf, hzero]
    rfl
  obtain ⟨hlast, hunread⟩ := hreads _ instr' rest m₂ (by simp [hes]) hrun hclaim' hvirt
  rw [virtualContext_eq hm₁ hm₂] at hunread
  obtain ⟨old, irq, new, rfl, hnone⟩ := mem_between_of_unread hclaim hunread
  refine ⟨irq, by simp, ?_⟩
  rw [run_append] at hbetween
  obtain ⟨m₃, -, hnew⟩ := Option.bind_eq_some_iff.mp hbetween
  obtain ⟨m₄, hinterrupt, hnew⟩ := Option.bind_eq_some_iff.mp hnew
  have hlast' : last h m₂ = irq := by
    rw [← last_interrupt hinterrupt]
    exact (last_of_run hnone hnew).resolve_right hlast
  rw [← hlast', ← hvalue', hsame]

section Sample

def bootSample : Machine := Machine.boot (fun _ => sampleConf) (fun _ => 0x80000000) resetPlic

theorem atClaim_loadClaim : AtClaim 1 loadClaim := by decide

theorem bootSample_hosts : Hosts (fun _ => sampleConf) bootSample := hosts_boot _ _ _

/-- The interrupt of source 1 is taken and the claim register loaded twice. -/
def readTwice : List Event := [.interrupt 0 1, .load 0 loadClaim, .load 0 loadClaim]

/-- The interrupt is taken again between the loads. -/
def readAgain : List Event :=
  [.interrupt 0 1, .load 0 loadClaim, .interrupt 0 1, .load 0 loadClaim]

theorem exists_load_claim {m : Machine} (hm : Hosts (fun _ => sampleConf) m) :
    ∃ m', step m (.load 0 loadClaim) = some m' ∧
      loaded m' 0 loadClaim = virtOf sampleConf (last 0 m) := by
  have hcontext : 1 = virtualContext (m.harts 0).vcpu := by
    rw [virtualContext, (hm 0).2]
    rfl
  have hexec : exec plicHandler (loadReg (hartidOf 0) (m.harts 0).vcpu (.claim 1)) m.plic =
      (.ok (virtOf sampleConf (last 0 m)), m.plic) := by
    rw [loadReg, if_pos hcontext, virtOf, last, (hm 0).1]
    rfl
  exact step_load_of_located (hm.vhartid_lt 0) atClaim_loadClaim hexec

/-- The second load of the claim register returns the same source, although no
interrupt has come in between. -/
theorem claim_handed_twice : ¬ HandedOnce 0 sampleConf bootSample readTwice := by
  intro honce
  have hinterrupt := step_interrupt bootSample 0 1
  have hm₁ := bootSample_hosts.step hinterrupt
  obtain ⟨m₁', hload, hvalue⟩ := exists_load_claim hm₁
  obtain ⟨m₂', hload', hvalue'⟩ := exists_load_claim (hm₁.step hload)
  have hlast : last 0 m₁' = 1 := by
    rcases hart_cases 0 hload with ⟨hkeeps, -⟩ | ⟨instr, sepc, hstore, -⟩ | ⟨irq, hirq, -⟩
    · exact hkeeps.last.trans (last_interrupt hinterrupt)
    · cases hstore
    · cases hirq
  have hvirt : virtOf sampleConf 1 = 1 := by decide
  rw [last_interrupt hinterrupt, hvirt] at hvalue
  rw [hlast, hvirt] at hvalue'
  obtain ⟨irq, hin, -⟩ := honce [.interrupt 0 1] loadClaim [] loadClaim [] 1 1 _ m₁' m₁' m₂' rfl
    (by rw [run, hinterrupt]; rfl) hload rfl hload' atClaim_loadClaim atClaim_loadClaim
    (by rw [hvalue]; decide) (by rw [hvalue, hvalue'])
  cases hin

theorem last_of_run_interrupt {m m' : Machine} {h : Fin dtbNrCpus} {es : List Event} {irq : Uint32}
    (hrun : run step m (es ++ [.interrupt h irq]) = some m') : last h m' = irq := by
  rw [run_append] at hrun
  obtain ⟨t, -, hlast⟩ := Option.bind_eq_some_iff.mp hrun
  obtain ⟨t', hstep, hnil⟩ := Option.bind_eq_some_iff.mp hlast
  cases hnil
  exact last_interrupt hstep

/-- An interrupt that has just been taken has not been read. -/
theorem unread_interrupt (h : Fin dtbNrCpus) (context : Nat) (es : List Event) (irq : Uint32) :
    Unread h context (es ++ [.interrupt h irq]) :=
  ⟨es, irq, [], rfl, by simp, by simp⟩

theorem readsOnce_readAgain : ReadsOnce 0 bootSample readAgain := by
  intro past instr rest m' hes hrun _ _
  have hpast : past = [] ++ [.interrupt 0 1] ∨
      past = [.interrupt 0 1, .load 0 loadClaim] ++ [.interrupt 0 1] := by
    rcases past with _ | ⟨e₁, _ | ⟨e₂, _ | ⟨e₃, _ | ⟨e₄, past⟩⟩⟩⟩
    · simp [readAgain] at hes
    · simp only [readAgain, List.cons_append, List.nil_append, List.cons.injEq] at hes
      exact .inl (by rw [← hes.1]; rfl)
    · simp [readAgain] at hes
    · simp only [readAgain, List.cons_append, List.nil_append, List.cons.injEq] at hes
      exact .inr (by rw [← hes.1, ← hes.2.1, ← hes.2.2.1]; rfl)
    · simp [readAgain] at hes
  have hone : (1 : Uint32) ≠ 0 := by decide
  rcases hpast with rfl | rfl
  · exact ⟨last_of_run_interrupt hrun ▸ hone, unread_interrupt _ _ _ _⟩
  · exact ⟨last_of_run_interrupt hrun ▸ hone, unread_interrupt _ _ _ _⟩

theorem handedOnce_readAgain : HandedOnce 0 sampleConf bootSample readAgain :=
  handedOnce_of_readsOnce readsOnce_readAgain

end Sample

end RiscvHypervisor.ClaimDelivery
