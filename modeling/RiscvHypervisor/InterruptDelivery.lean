import RiscvHypervisor.PlicSystem

/-!
Claims and completions along runs.  A vcpu remembers one claimed source, and
`vplic_handle_interrupt` overwrites it: an interrupt that comes in while another
is in service loses the first one, and one that finds nothing to claim leaves
the guest's interrupt line raised.
-/

namespace RiscvHypervisor.InterruptDelivery

open RiscvHypervisor.TransitionSystem
open RiscvHypervisor.EffectProgram
open RiscvHypervisor.MachineTypes
open RiscvHypervisor.GuestConfig
open RiscvHypervisor.PlicDriver
open RiscvHypervisor.VirtualCpu
open RiscvHypervisor.VirtualPlic
open RiscvHypervisor.EmulatedAccess
open RiscvHypervisor.RegisterMap
open RiscvHypervisor.PlicSystem

/-- `last_claimed_irq_id` of the vcpu on the hart. -/
def last (h : Fin dtbNrCpus) (m : Machine) : Uint32 := (m.harts h).vcpu.lastClaimedIrqId

/-- What is assumed of the PLIC: a claim returns nothing, or a source that is
pending, enabled for the context and not claimed on any context. -/
def OffersPending (m : Machine) : Event → Prop
  | .interrupt h irq => irq = 0 ∨ (irq.toNat < 1024 ∧ Pending m.plic irq.toNat ∧
      EnabledOn m.plic (contextOf h) irq.toNat ∧ ∀ context, irq ∉ m.plic.claimed context)
  | _ => True

/-- Every source claimed for the hart and not completed is the one it
remembers. -/
def NoneForgotten (h : Fin dtbNrCpus) (m : Machine) : Prop :=
  m.plic.claimed (contextOf h) ⊆ {last h m}

/-- Every completion of a source is of a claimed one. -/
def CompletesClaimed (h : Fin dtbNrCpus) (m : Machine) (e : Event) : Prop :=
  ∀ plic irq, (plic, PlicOp.write (claimWord (contextOf h)) irq) ∈ accessesOf m e → irq ≠ 0 →
    irq ∈ plic.claimed (contextOf h)

/-- Interrupts on the hart come in only when the one before is completed. -/
def TakenWhenIdle (h : Fin dtbNrCpus) (m : Machine) : Event → Prop
  | .interrupt h' _ => h' = h → last h m = 0
  | _ => True

/-- The source remembered is claimed. -/
structure ClaimInv (h : Fin dtbNrCpus) (m : Machine) : Prop where
  zero : 0 ∉ m.plic.claimed (contextOf h)
  last : last h m ≠ 0 → last h m ∈ m.plic.claimed (contextOf h)

section Steps

variable {h : Fin dtbNrCpus} {m m' : Machine} {e : Event}

theorem claim_claimed_zero {plic : Plic} {context : Nat} (hoffer : plic.offer context = 0) :
    (plic.claim context).claimed = plic.claimed := by
  rw [Plic.claim]
  exact if_neg fun hne => hne hoffer

theorem claim_claimed_insert {plic : Plic} {context : Nat} (hoffer : plic.offer context ≠ 0) :
    (plic.claim context).claimed = Function.update plic.claimed context
      (insert (plic.offer context) (plic.claimed context)) := by
  rw [Plic.claim]
  exact if_pos hoffer

/-- The effect of an event on the sources claimed for a hart. -/
theorem claimed_cases (h : Fin dtbNrCpus) (hstep : step m e = some m') :
    (m'.plic.claimed (contextOf h) = m.plic.claimed (contextOf h) ∧ last h m' = last h m ∧
        ∀ irq, e ≠ .interrupt h irq) ∨
      (m'.plic.claimed (contextOf h) = (m.plic.claimed (contextOf h)).erase (last h m) ∧
        last h m' = 0 ∧ ∀ irq, e ≠ .interrupt h irq) ∨
      (e = .interrupt h 0 ∧ last h m' = 0 ∧
        m'.plic.claimed (contextOf h) = m.plic.claimed (contextOf h)) ∨
      ∃ irq, irq ≠ 0 ∧ e = .interrupt h irq ∧ last h m' = irq ∧
        m'.plic.claimed (contextOf h) = insert irq (m.plic.claimed (contextOf h)) := by
  have hother : ∀ {h' : Fin dtbNrCpus} {hart : HartState} {plic : Plic}, h ≠ h' →
      last h ⟨plic, Function.update m.harts h' hart⟩ = last h m := by
    intro h' hart plic hne
    simp [last, hne]
  cases move_of_step hstep with
  | @registers _ h' instr hart α p hevent huses hkeeps =>
      refine .inl ⟨?_, ?_, by rcases hevent with rfl | rfl <;> simp⟩
      · rw [(exec_registers_frame (contextOf_le h') huses m.plic).2]
      · rcases eq_or_ne h h' with rfl | hh
        · simpa [last] using hkeeps.last
        · exact hother hh
  | @complete h' instr sepc =>
      rcases eq_or_ne h h' with rfl | hh
      · refine .inr (.inl ⟨?_, ?_, by simp⟩)
        · simp [Plic.complete, last]
        · simp [last, completed]
      · refine .inl ⟨?_, hother hh, by simp⟩
        simp [Plic.complete, contextOf_inj, hh]
  | @interrupt h' irq =>
      have hoffer : (m.offer h' irq).plic.offer (contextOf h') = irq := by
        simp [Machine.offer]
      rcases eq_or_ne h h' with rfl | hh
      · refine .inr (.inr ?_)
        have hlast : last h ⟨(m.offer h irq).plic.claim (contextOf h),
            Function.update m.harts h (injected (m.harts h) irq)⟩ = irq := by
          simp [last, injected]
        rcases eq_or_ne irq 0 with rfl | hirq
        · refine .inl ⟨rfl, hlast, ?_⟩
          rw [claim_claimed_zero hoffer]
          rfl
        · refine .inr ⟨irq, hirq, rfl, hlast, ?_⟩
          rw [claim_claimed_insert (fun hzero => hirq (hoffer.symm.trans hzero)), hoffer,
            Function.update_self]
          rfl
      · refine .inl ⟨?_, hother hh, ?_⟩
        · rcases eq_or_ne irq 0 with hirq | hirq
          · rw [claim_claimed_zero (hoffer.trans hirq)]
            rfl
          · rw [claim_claimed_insert (fun hzero => hirq (hoffer.symm.trans hzero)),
              Function.update_of_ne (contextOf_inj.not.mpr hh)]
            rfl
        · rintro irq' hevent
          cases hevent
          exact hh rfl
  | @guest h' regs sepc =>
      refine .inl ⟨rfl, ?_, by simp⟩
      rcases eq_or_ne h h' with rfl | hh
      · simp [last, Machine.setGuest]
      · exact hother hh
  | raise => exact .inl ⟨rfl, rfl, by simp⟩

theorem ClaimInv.step (hm : ClaimInv h m) (hstep : step m e = some m') : ClaimInv h m' := by
  rcases claimed_cases h hstep with ⟨hclaimed, hlast, -⟩ | ⟨hclaimed, hlast, -⟩ |
    ⟨-, hlast, hclaimed⟩ | ⟨irq, hirq, -, hlast, hclaimed⟩
  · refine ⟨hclaimed ▸ hm.zero, ?_⟩
    rw [hlast, hclaimed]
    exact hm.last
  · refine ⟨?_, fun hne => absurd hlast hne⟩
    rw [hclaimed]
    exact fun hmem => hm.zero (Finset.mem_of_mem_erase hmem)
  · exact ⟨hclaimed ▸ hm.zero, fun hne => absurd hlast hne⟩
  · refine ⟨?_, fun _ => ?_⟩
    · rw [hclaimed, Finset.mem_insert]
      rintro (hzero | hmem)
      · exact hirq hzero.symm
      · exact hm.zero hmem
    · rw [hclaimed, hlast]
      exact Finset.mem_insert_self _ _

theorem TakenWhenIdle.of_ne (hne : ∀ irq, e ≠ .interrupt h irq) : TakenWhenIdle h m e := by
  cases e with
  | interrupt h' irq =>
      rintro rfl
      exact absurd rfl (hne irq)
  | load => trivial
  | store => trivial
  | guest => trivial
  | raise => trivial

theorem NoneForgotten.step (hm : NoneForgotten h m) (hidle : TakenWhenIdle h m e)
    (hinv : ClaimInv h m) (hstep : step m e = some m') : NoneForgotten h m' := by
  unfold NoneForgotten at hm ⊢
  rcases claimed_cases h hstep with ⟨hclaimed, hlast, -⟩ | ⟨hclaimed, hlast, -⟩ |
    ⟨rfl, hlast, hclaimed⟩ | ⟨irq, -, rfl, hlast, hclaimed⟩
  · rwa [hclaimed, hlast]
  · rw [hclaimed]
    intro p hp
    obtain ⟨hne, hmem⟩ := Finset.mem_erase.mp hp
    exact absurd (Finset.mem_singleton.mp (hm hmem)) hne
  · rw [hclaimed, hlast]
    rwa [show last h m = 0 from hidle rfl] at hm
  · -- nothing was claimed before, as the hart remembered nothing
    rw [show last h m = 0 from hidle rfl] at hm
    have hempty : m.plic.claimed (contextOf h) = ∅ := by
      rcases Finset.subset_singleton_iff.mp hm with hempty | hsingle
      · exact hempty
      · exact absurd (hsingle ▸ Finset.mem_singleton_self 0) hinv.zero
    rw [hclaimed, hempty, hlast]
    exact subset_rfl

/-- An interrupt that finds another in service makes the hart forget it. -/
theorem not_noneForgotten_of_interrupt (hinv : ClaimInv h m) (hbusy : ¬ TakenWhenIdle h m e)
    (hoffer : OffersPending m e) (hstep : step m e = some m') : ¬ NoneForgotten h m' := by
  intro hsub
  unfold NoneForgotten at hsub
  rcases claimed_cases h hstep with ⟨-, -, hne⟩ | ⟨-, -, hne⟩ | ⟨rfl, hlast, hclaimed⟩ |
    ⟨irq, hirq, rfl, hlast, hclaimed⟩
  · exact hbusy (.of_ne hne)
  · exact hbusy (.of_ne hne)
  · simp only [TakenWhenIdle, true_imp_iff] at hbusy
    rw [hclaimed, hlast] at hsub
    exact hbusy (Finset.mem_singleton.mp (hsub (hinv.last hbusy)))
  · simp only [TakenWhenIdle, true_imp_iff] at hbusy
    obtain hzero | ⟨-, -, -, hfresh⟩ := hoffer
    · exact hirq hzero
    · rw [hclaimed, hlast] at hsub
      have heq := Finset.mem_singleton.mp (hsub (Finset.mem_insert_of_mem (hinv.last hbusy)))
      exact hfresh _ (heq ▸ hinv.last hbusy)

end Steps

section Completions

/-- A program that touches registers only completes nothing. -/
theorem not_mem_accesses_of_uses {context other : Nat} {conf : VmConfig} {α : Type} {p : PlicM α}
    (hcontext : context ≤ 15871) (hp : p.Uses (RegisterAccess context conf)) (plic plic' : Plic)
    (irq : Uint32) :
    (plic', PlicOp.write (claimWord other) irq) ∉ accesses plicHandler p plic := by
  induction p generalizing plic with
  | done a => simp [accesses]
  | panic message => simp [accesses]
  | access o k ih =>
      simp only [accesses, List.mem_cons, Prod.mk.injEq, not_or, not_and]
      refine ⟨fun _ ho => ?_, ih _ (hp.2 _) _⟩
      have hnone := hp.1.claimContext_index hcontext
      rw [← ho, PlicOp.index, claimContext_claimWord] at hnone
      cases hnone

theorem claimWord_inj {context context' : Nat} :
    claimWord context = claimWord context' ↔ context = context' := by
  simp only [claimWord]
  omega

theorem completesClaimed_store {h h' : Fin dtbNrCpus} {m : Machine} (hm : ClaimInv h m)
    (instr : Instr) : CompletesClaimed h m (.store h' instr) := by
  intro plic irq hmem hirq
  simp only [accessesOf, emulateStore] at hmem
  rcases storeValue_cases (hartidOf_lt h') (m.harts h') (instr.addr - dtbPlic)
    (((m.harts h').vcpu.regs instr.rs2).setWidth 32) with ⟨p, huses, heq⟩ | heq | heq
  · rw [ownContext_hartidOf] at huses
    rw [heq] at hmem
    exact absurd hmem (not_mem_accesses_of_uses (contextOf_le h')
      ((huses.bind fun _ => Program.uses_done _ _).bind fun _ => Program.uses_done _ _) _ _ _)
  · rw [heq, ownContext_hartidOf] at hmem
    simp only [Program.access_bind, Program.done_bind, Program.pure_eq, accesses,
      List.mem_singleton, Prod.mk.injEq, PlicOp.write.injEq, claimWord_inj, contextOf_inj] at hmem
    obtain ⟨rfl, rfl, rfl⟩ := hmem
    exact hm.last hirq
  · rw [heq] at hmem
    cases hmem

theorem completesClaimed_of_claimInv {h : Fin dtbNrCpus} {m : Machine} (hm : ClaimInv h m)
    (e : Event) : CompletesClaimed h m e := by
  cases e with
  | load h' instr =>
      intro plic irq hmem
      have huses := loadValue_uses (hartidOf_lt h') (m.harts h').vcpu (instr.addr - dtbPlic)
      rw [ownContext_hartidOf] at huses
      exact absurd hmem (not_mem_accesses_of_uses (contextOf_le h')
        (huses.bind fun _ => Program.uses_done _ _) _ _ _)
  | store h' instr => exact completesClaimed_store hm instr
  | interrupt h' irq =>
      intro plic irq' hmem
      rw [accessesOf, vplicHandleInterrupt_eq (hartidOf_lt h')] at hmem
      simp [accesses] at hmem
  | guest h' regs sepc => exact fun _ _ hmem => absurd hmem List.not_mem_nil
  | raise source => exact fun _ _ hmem => absurd hmem List.not_mem_nil

end Completions

/-- On a hart that starts with nothing claimed, no claim is forgotten and only
claimed sources are completed exactly when every interrupt of the hart is taken
with the one before completed. -/
theorem vplicHandleInterrupt_keeps_claims (h : Fin dtbNrCpus) (m : Machine) (es : List Event)
    (hlast : last h m = 0) (hclaimed : m.plic.claimed (contextOf h) = ∅)
    (hplic : GuardedRun step OffersPending m es) :
    ((∀ t ∈ states step m es, NoneForgotten h t) ∧ GuardedRun step (CompletesClaimed h) m es) ↔
      GuardedRun step (TakenWhenIdle h) m es := by
  have hinv : ClaimInv h m := ⟨by simp [hclaimed], fun hne => absurd hlast hne⟩
  have hnone : NoneForgotten h m := by simp [NoneForgotten, hclaimed]
  have hcompletes : GuardedRun step (CompletesClaimed h) m es :=
    hplic.imp (fun _ e _ hs _ hstep => ⟨completesClaimed_of_claimInv hs e, hs.step hstep⟩) hinv
  have hiff := forall_mem_states_iff (TakenWhenIdle h)
    (fun t => NoneForgotten h t ∧ ClaimInv h t) (NoneForgotten h)
    (fun _ _ _ hs _ hidle hstep => ⟨hs.1.step hidle hs.2 hstep, hs.2.step hstep⟩)
    (fun _ hs => hs.1)
    (fun _ _ _ hs hoffer hbusy hstep => not_noneForgotten_of_interrupt hs.2 hbusy hoffer hstep)
    ⟨hnone, hinv⟩ hplic
  rw [hiff]
  exact and_iff_left hcompletes

/-- Sources 1 and 10 are pending and enabled for hart 0. -/
def busyPlic : Plic where
  regs := fun index =>
    if index = pendingWord 1 ∨ index = enableWord 1 1 then sourceMask 1 ||| sourceMask 10 else 0
  offer := fun _ => 0
  claimed := fun _ => ∅

def busyMachine : Machine := Machine.boot (fun _ => sampleConf) (fun _ => 0) busyPlic

/-- `lw a0, 0x201004(PLIC)`: the claim register of virtual context 1. -/
def loadClaim : Instr where
  opcode := 3
  rd := 10
  funct3 := 2
  rs2 := 0
  addr := dtbPlic + 0x201004

/-- `sw a0, 0x201004(PLIC)` -/
def storeClaim : Instr where
  opcode := 0x23
  rd := 4
  funct3 := 2
  rs2 := 10
  addr := dtbPlic + 0x201004

/-- Source 10 is in service. -/
def claimedMachine : Machine where
  plic := (busyMachine.offer 0 10).plic.claim (contextOf 0)
  harts := Function.update busyMachine.harts 0 (injected (busyMachine.harts 0) 10)

/-- The guest has read it from the claim register. -/
def servedMachine : Machine where
  plic := claimedMachine.plic
  harts := Function.update claimedMachine.harts 0 (writeLoaded (claimedMachine.harts 0) loadClaim 10)

/-- The guest has completed it. -/
def completedMachine : Machine where
  plic := servedMachine.plic.complete (contextOf 0) 10
  harts := Function.update servedMachine.harts 0
    { completed (servedMachine.harts 0) with sepc := (servedMachine.harts 0).sepc + 4 }

theorem step_claimed : step busyMachine (.interrupt 0 10) = some claimedMachine :=
  step_interrupt busyMachine 0 10

theorem step_served : step claimedMachine (.load 0 loadClaim) = some servedMachine :=
  step_load_eq (by decide) (show Located _ (.claim 1) by decide) rfl

theorem step_completed : step servedMachine (.store 0 storeClaim) = some completedMachine :=
  step_store_eq (by decide) (show Located _ (.claim 1) by decide) rfl

theorem completedMachine_claimed (context : Nat) : completedMachine.plic.claimed context = ∅ := by
  rcases eq_or_ne context (contextOf 0) with rfl | hne
  · decide
  · exact (Function.update_of_ne hne _ _).trans (Function.update_of_ne hne _ _)

theorem offersPending_first : OffersPending busyMachine (.interrupt 0 10) :=
  .inr ⟨by decide, by decide, by decide, fun _ => Finset.notMem_empty _⟩

/-- Source 10 is claimed, read and completed before source 1 is claimed. -/
def serviced : List Event :=
  [.interrupt 0 10, .load 0 loadClaim, .store 0 storeClaim, .interrupt 0 1]

theorem serviced_offersPending : GuardedRun step OffersPending busyMachine serviced := by
  refine guardedRun_cons step_claimed offersPending_first ?_
  refine guardedRun_cons step_served trivial (guardedRun_cons step_completed trivial ?_)
  refine fun t _ => ⟨.inr ⟨by decide, by decide, by decide, fun context => ?_⟩, trivial⟩
  rw [completedMachine_claimed]
  exact Finset.notMem_empty _

theorem serviced_takenWhenIdle : GuardedRun step (TakenWhenIdle 0) busyMachine serviced := by
  refine guardedRun_cons step_claimed (fun _ => rfl) ?_
  refine guardedRun_cons step_served trivial (guardedRun_cons step_completed trivial ?_)
  exact fun t _ => ⟨fun _ => rfl, trivial⟩

theorem vplicHandleInterrupt_keeps_claims_serviced :
    (∃ m, run step busyMachine serviced = some m ∧ last 0 m = 1) ∧
      (∀ t ∈ states step busyMachine serviced, NoneForgotten 0 t) ∧
      GuardedRun step (CompletesClaimed 0) busyMachine serviced := by
  refine ⟨?_, (vplicHandleInterrupt_keeps_claims 0 busyMachine serviced rfl rfl
    serviced_offersPending).mpr serviced_takenWhenIdle⟩
  rw [serviced, run, step_claimed, Option.bind_some, run, step_served, Option.bind_some, run,
    step_completed, Option.bind_some, run, step_interrupt, Option.bind_some]
  exact ⟨_, rfl, by decide⟩

/-- Source 1 comes in while source 10 is in service, and source 10 is never
completed. -/
theorem vplicHandleInterrupt_forgets_claim :
    ∃ es, GuardedRun step OffersPending busyMachine es ∧
      ∃ t ∈ states step busyMachine es, ¬ NoneForgotten 0 t := by
  refine ⟨[.interrupt 0 10, .interrupt 0 1], ?_, ?_⟩
  · refine guardedRun_cons step_claimed offersPending_first fun t _ => ⟨.inr ?_, trivial⟩
    refine ⟨by decide, by decide, by decide, fun context => ?_⟩
    rcases eq_or_ne context (contextOf 0) with rfl | hcontext
    · decide
    · have hframe : claimedMachine.plic.claimed context = ∅ := Function.update_of_ne hcontext _ _
      rw [hframe]
      exact Finset.notMem_empty _
  · simp only [states, step_interrupt, List.mem_cons, List.not_mem_nil, or_false]
    refine ⟨_, .inr (.inr rfl), ?_⟩
    unfold NoneForgotten
    decide

section Line

/-- The guest's external interrupt is raised exactly while it has one to claim. -/
def LineMatches (h : Fin dtbNrCpus) (m : Machine) : Prop :=
  (m.harts h).hvip &&& hvipVseip ≠ 0 ↔ last h m ≠ 0

/-- An interrupt on the hart claims a source, or there is none in service. -/
def ClaimsOrIdle (h : Fin dtbNrCpus) (m : Machine) : Event → Prop
  | .interrupt h' irq => h' = h → irq ≠ 0 ∨ last h m = 0
  | _ => True

variable {h : Fin dtbNrCpus} {m m' : Machine} {e : Event}

theorem and_or_vseip (hvip : Uint64) : (hvip ||| hvipVseip) &&& hvipVseip ≠ 0 := by
  intro hzero
  have hbit := congrArg (fun x : Uint64 => x.getLsbD 10) hzero
  simp [hvipVseip] at hbit

theorem and_not_vseip (hvip : Uint64) : hvip &&& ~~~hvipVseip &&& hvipVseip = 0 := by
  ext i hi
  simp only [BitVec.getElem_and, BitVec.getElem_not]
  cases hvipVseip[i] <;> simp

theorem LineMatches.step (hm : LineMatches h m) (hclaims : ClaimsOrIdle h m e)
    (hstep : step m e = some m') : LineMatches h m' := by
  rcases hart_cases h hstep with ⟨hkeeps, -⟩ | ⟨instr, sepc, -, heq⟩ | ⟨irq, rfl, heq⟩
  · simpa only [LineMatches, last, hkeeps.last, hkeeps.hvip] using hm
  · simp only [LineMatches, last, heq, completed, and_not_vseip, ne_eq, not_true_eq_false]
  · simp only [LineMatches, last, heq, injected]
    rcases eq_or_ne irq 0 with hirq | hirq
    · have hzero : last h m = 0 := (hclaims rfl).resolve_left fun hne => hne hirq
      simpa only [hirq, ne_eq, not_true_eq_false, if_false, iff_false, LineMatches, hzero] using hm
    · simp only [ne_eq, hirq, not_false_eq_true, if_true, iff_true]
      exact and_or_vseip _

theorem not_lineMatches_of_interrupt (hm : LineMatches h m) (hclaims : ¬ ClaimsOrIdle h m e)
    (hstep : step m e = some m') : ¬ LineMatches h m' := by
  rcases hart_cases h hstep with ⟨-, hne⟩ | ⟨instr, sepc, rfl, -⟩ | ⟨irq, rfl, heq⟩
  · refine absurd ?_ hclaims
    cases e with
    | interrupt h' irq =>
        rintro rfl
        exact absurd rfl (hne irq)
    | load => trivial
    | store => trivial
    | guest => trivial
    | raise => trivial
  · exact absurd trivial hclaims
  · simp only [ClaimsOrIdle, true_imp_iff, not_or, not_not] at hclaims
    obtain ⟨rfl, hbusy⟩ := hclaims
    intro hline
    have hraised := hm.mpr hbusy
    simp only [LineMatches, last, heq, injected, ne_eq, not_true_eq_false, if_false,
      iff_false, not_not] at hline
    exact hraised hline

end Line

/-- The interrupt line matches the claimed source along a run exactly when
every interrupt on the hart claims a source or finds none in service. -/
theorem vplicHandleInterrupt_line (confs : Fin dtbNrCpus → VmConfig)
    (sepc : Fin dtbNrCpus → Uint64) (plic : Plic) (h : Fin dtbNrCpus) (es : List Event) :
    (∀ t ∈ states step (Machine.boot confs sepc plic) es, LineMatches h t) ↔
      GuardedRun step (ClaimsOrIdle h) (Machine.boot confs sepc plic) es := by
  have hrun : GuardedRun step (fun _ _ => True) (Machine.boot confs sepc plic) es :=
    guardedRun_of_forall (fun _ _ => trivial) _ _
  have hboot : LineMatches h (Machine.boot confs sepc plic) := by
    simp [LineMatches, Machine.boot, last, initVcpu]
  exact forall_mem_states_iff (ClaimsOrIdle h) (LineMatches h) (LineMatches h)
    (fun _ _ _ hs _ hclaims hstep => hs.step hclaims hstep) (fun _ hs => hs)
    (fun _ _ _ hs _ hclaims hstep => not_lineMatches_of_interrupt hs hclaims hstep) hboot hrun

/-- A claim that returns 0 while source 10 is in service leaves the line raised
with nothing to claim. -/
theorem vplicHandleInterrupt_line_stale :
    ∃ t ∈ states step busyMachine [.interrupt 0 10, .interrupt 0 0],
      ¬ LineMatches 0 t := by
  simp only [states, step_interrupt, List.mem_cons, List.not_mem_nil, or_false]
  refine ⟨_, .inr (.inr rfl), ?_⟩
  unfold LineMatches
  decide

end RiscvHypervisor.InterruptDelivery
