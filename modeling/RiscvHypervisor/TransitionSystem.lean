import Mathlib.Data.Fintype.Card
import Mathlib.Data.Finset.Card

/-!
Deterministic labelled transition systems with guarded runs.  A label decides
the next state, so a run is a list of labels.  A guard restricts which steps
of a run are considered; it is a condition on the state before the step.
-/

namespace RiscvHypervisor.TransitionSystem

universe u v

section Runs

variable {σ : Type u} {ι : Type v}

/-- The state after taking all steps in order, when every one is enabled. -/
def run (step : σ → ι → Option σ) : σ → List ι → Option σ
  | s, [] => some s
  | s, l :: ls => (step s l).bind fun t => run step t ls

/-- The states visited by a run, the start first.  The run ends at the first
step that is not enabled. -/
def states (step : σ → ι → Option σ) : σ → List ι → List σ
  | s, [] => [s]
  | s, l :: ls =>
      s :: match step s l with
        | some t => states step t ls
        | none => []

/-- Every step the run takes meets the guard in the state before it. -/
def GuardedRun (step : σ → ι → Option σ) (guard : σ → ι → Prop) :
    σ → List ι → Prop
  | _, [] => True
  | s, l :: ls => ∀ t, step s l = some t → guard s l ∧ GuardedRun step guard t ls

/-- States reached from an initial one by steps that all meet the guard. -/
inductive Reachable (step : σ → ι → Option σ) (guard : σ → ι → Prop)
    (init : σ → Prop) : σ → Prop
  | start {s : σ} : init s → Reachable step guard init s
  | next {s t : σ} {l : ι} : Reachable step guard init s → guard s l →
      step s l = some t → Reachable step guard init t

variable {step : σ → ι → Option σ}

theorem run_append (s : σ) (ls ls' : List ι) :
    run step s (ls ++ ls') = (run step s ls).bind fun t => run step t ls' := by
  induction ls generalizing s with
  | nil => rfl
  | cons l ls ih => simp [run, ih, Option.bind_assoc]

theorem run_trans {s t u : σ} {ls ls' : List ι} (h : run step s ls = some t)
    (h' : run step t ls' = some u) : run step s (ls ++ ls') = some u := by
  rw [run_append, h]
  exact h'

theorem Reachable.invariant {guard : σ → ι → Prop} {init : σ → Prop} (Inv : σ → Prop)
    (hinit : ∀ s, init s → Inv s)
    (hstep : ∀ s l t, Inv s → guard s l → step s l = some t → Inv t)
    {s : σ} (h : Reachable step guard init s) : Inv s := by
  induction h with
  | start hs => exact hinit _ hs
  | next _ hguard ht ih => exact hstep _ _ _ ih hguard ht

theorem Reachable.mono {guard guard' : σ → ι → Prop} {init : σ → Prop}
    (hguard : ∀ s l, Reachable step guard init s → guard s l → guard' s l)
    {s : σ} (h : Reachable step guard init s) : Reachable step guard' init s := by
  induction h with
  | start hs => exact .start hs
  | next hr hg ht ih => exact .next ih (hguard _ _ hr hg) ht

theorem Reachable.of_guardedRun {guard : σ → ι → Prop} {init : σ → Prop} {s t : σ} {ls : List ι}
    (hs : Reachable step guard init s) (hguard : GuardedRun step guard s ls)
    (hrun : run step s ls = some t) : Reachable step guard init t := by
  induction ls generalizing s with
  | nil =>
      cases hrun
      exact hs
  | cons l ls ih =>
      obtain ⟨u, hstep, hrest⟩ := Option.bind_eq_some_iff.mp hrun
      obtain ⟨hl, hguard⟩ := hguard u hstep
      exact ih (.next hs hl hstep) hguard hrest

/-- A guard that follows from an invariant holds along the run. -/
theorem GuardedRun.imp {guard guard' : σ → ι → Prop} {Inv : σ → Prop}
    (hstep : ∀ s l t, Inv s → guard s l → step s l = some t → guard' s l ∧ Inv t)
    {s : σ} {ls : List ι} (hs : Inv s) (hrun : GuardedRun step guard s ls) :
    GuardedRun step guard' s ls := by
  induction ls generalizing s with
  | nil => trivial
  | cons l ls ih =>
      intro t ht
      obtain ⟨hguard, hrest⟩ := hrun t ht
      obtain ⟨hguard', hinv⟩ := hstep s l t hs hguard ht
      exact ⟨hguard', ih hinv hrest⟩

theorem guardedRun_of_forall {guard : σ → ι → Prop} (h : ∀ s l, guard s l) (s : σ)
    (ls : List ι) : GuardedRun step guard s ls := by
  induction ls generalizing s with
  | nil => trivial
  | cons l ls ih => exact fun t _ => ⟨h s l, ih t⟩

theorem Reachable.of_run {guard : σ → ι → Prop} {init : σ → Prop} (hguard : ∀ s l, guard s l)
    {s t : σ} {ls : List ι} (hs : Reachable step guard init s) (hrun : run step s ls = some t) :
    Reachable step guard init t :=
  hs.of_guardedRun (guardedRun_of_forall hguard s ls) hrun

instance decidableGuardedRun {guard : σ → ι → Prop} [∀ s l, Decidable (guard s l)] :
    ∀ s ls, Decidable (GuardedRun step guard s ls)
  | _, [] => isTrue trivial
  | s, l :: ls =>
      match hstep : step s l with
      | none => isTrue fun _ ht => by cases hstep.symm.trans ht
      | some t =>
          have : Decidable (GuardedRun step guard t ls) := decidableGuardedRun t ls
          decidable_of_iff (guard s l ∧ GuardedRun step guard t ls)
            ⟨fun h _ hu => Option.some.inj (hstep.symm.trans hu) ▸ h, fun h => h t hstep⟩

theorem guardedRun_cons {guard : σ → ι → Prop} {s t : σ} {l : ι} {ls : List ι}
    (hstep : step s l = some t) (hguard : guard s l) (hrest : GuardedRun step guard t ls) :
    GuardedRun step guard s (l :: ls) := by
  intro u hu
  obtain rfl : t = u := Option.some.inj (hstep.symm.trans hu)
  exact ⟨hguard, hrest⟩

/-- When the guard keeps an invariant that implies `P`, and a step against the
guard breaks `P` at once, a run keeps `P` exactly when it keeps the guard. -/
theorem forall_mem_states_iff {assumption : σ → ι → Prop} (guard : σ → ι → Prop)
    (Inv P : σ → Prop)
    (hstep : ∀ s l t, Inv s → assumption s l → guard s l → step s l = some t → Inv t)
    (hP : ∀ s, Inv s → P s)
    (hbreak : ∀ s l t, Inv s → assumption s l → ¬ guard s l → step s l = some t → ¬ P t)
    {s : σ} {ls : List ι} (hs : Inv s) (hrun : GuardedRun step assumption s ls) :
    (∀ t ∈ states step s ls, P t) ↔ GuardedRun step guard s ls := by
  induction ls generalizing s with
  | nil => simp [states, GuardedRun, hP s hs]
  | cons l ls ih =>
      cases hnext : step s l with
      | none => simp [states, GuardedRun, hnext, hP s hs]
      | some u =>
          obtain ⟨hassumption, hrest⟩ := hrun u hnext
          simp only [states, GuardedRun, hnext, List.mem_cons, forall_eq_or_imp,
            Option.some.injEq, forall_eq']
          by_cases hguard : guard s l
          · have hu := hstep s l u hs hassumption hguard hnext
            simp only [hP s hs, hguard, true_and]
            exact ih hu hrest
          · refine iff_of_false ?_ (fun h => hguard h.1)
            rintro ⟨-, h⟩
            refine hbreak s l u hs hassumption hguard hnext (h u ?_)
            cases ls <;> simp [states]

/-- Some run goes from one state to the other. -/
def Leads (step : σ → ι → Option σ) (s t : σ) : Prop := ∃ ls, run step s ls = some t

theorem Leads.refl (s : σ) : Leads step s s := ⟨[], rfl⟩

theorem Leads.trans {s t u : σ} (h : Leads step s t) (h' : Leads step t u) : Leads step s u := by
  obtain ⟨ls, hrun⟩ := h
  obtain ⟨ls', hrun'⟩ := h'
  exact ⟨ls ++ ls', run_trans hrun hrun'⟩

theorem Leads.single {s t : σ} {l : ι} (h : step s l = some t) : Leads step s t :=
  ⟨[l], by rw [run, h]; rfl⟩

theorem Leads.head {s t u : σ} {l : ι} (h : step s l = some t) (h' : Leads step t u) :
    Leads step s u :=
  (Leads.single h).trans h'

theorem Leads.invariant {Inv : σ → Prop} (hstep : ∀ s l t, Inv s → step s l = some t → Inv t)
    {s t : σ} (hs : Inv s) (h : Leads step s t) : Inv t := by
  obtain ⟨ls, hrun⟩ := h
  induction ls generalizing s with
  | nil =>
      cases hrun
      exact hs
  | cons l ls ih =>
      obtain ⟨u, hnext, hrest⟩ := Option.bind_eq_some_iff.mp hrun
      exact ih (hstep s l u hs hnext) hrest

end Runs

section Simulations

variable {σ τ : Type u} {ι κ : Type v} {step : σ → ι → Option σ} {step' : τ → κ → Option τ}

/-- When every step of one system can be answered by a run of another, so can every
run. -/
theorem exists_leads_of_simulation {R : σ → τ → Prop}
    (hstep : ∀ s t l s', R s t → step s l = some s' → ∃ t', Leads step' t t' ∧ R s' t')
    {s s' : σ} {t : τ} (h : R s t) (hleads : Leads step s s') :
    ∃ t', Leads step' t t' ∧ R s' t' := by
  obtain ⟨ls, hrun⟩ := hleads
  induction ls generalizing s t with
  | nil =>
      cases hrun
      exact ⟨t, .refl t, h⟩
  | cons l ls ih =>
      obtain ⟨u, hnext, hrest⟩ := Option.bind_eq_some_iff.mp hrun
      obtain ⟨t₁, hleads₁, h₁⟩ := hstep s t l u h hnext
      obtain ⟨t₂, hleads₂, h₂⟩ := ih h₁ hrest
      exact ⟨t₂, hleads₁.trans hleads₂, h₂⟩

end Simulations

section Families

variable {ι : Type u} {α : Type v} [Fintype ι]

/-- How many members of a family satisfy `p`. -/
def count (p : α → Prop) [DecidablePred p] (f : ι → α) : Nat :=
  (Finset.univ.filter fun i => p (f i)).card

theorem count_eq_zero_iff (p : α → Prop) [DecidablePred p] (f : ι → α) :
    count p f = 0 ↔ ∀ i, ¬ p (f i) := by
  simp [count, Finset.filter_eq_empty_iff]

theorem count_eq_card_iff (p : α → Prop) [DecidablePred p] (f : ι → α) :
    count p f = Fintype.card ι ↔ ∀ i, p (f i) := by
  rw [count, Finset.card_eq_iff_eq_univ, Finset.filter_eq_self]
  simp

theorem count_add_one_eq_card [DecidableEq ι] (p : α → Prop) [DecidablePred p] {f : ι → α}
    {i : ι} (hi : ¬ p (f i)) (hothers : ∀ j, j ≠ i → p (f j)) :
    count p f + 1 = Fintype.card ι := by
  have hfilter : (Finset.univ.filter fun j => p (f j)) = Finset.univ.erase i := by
    ext j
    simp only [Finset.mem_filter, Finset.mem_univ, true_and, Finset.mem_erase, and_true]
    refine ⟨?_, hothers j⟩
    rintro hj rfl
    exact hi hj
  rw [count, hfilter, Finset.card_erase_add_one (Finset.mem_univ i), Finset.card_univ]

/-- Replacing one member changes the count by that member's share. -/
theorem count_update [DecidableEq ι] (p : α → Prop) [DecidablePred p] (f : ι → α) (i : ι) (x : α) :
    count p (Function.update f i x) + (if p (f i) then 1 else 0) =
      count p f + (if p x then 1 else 0) := by
  have hsplit : ∀ g : ι → α, count p g =
      ((Finset.univ.erase i).filter fun j => p (g j)).card + (if p (g i) then 1 else 0) := by
    intro g
    rw [count, ← Finset.insert_erase (Finset.mem_univ i), Finset.filter_insert]
    split
    · rw [Finset.card_insert_of_notMem (by simp)]
      simp
    · simp
  have hrest : ((Finset.univ.erase i).filter fun j => p (Function.update f i x j)) =
      (Finset.univ.erase i).filter fun j => p (f j) := by
    apply Finset.filter_congr
    intro j hj
    rw [Function.update_of_ne (Finset.ne_of_mem_erase hj)]
  rw [hsplit (Function.update f i x), hsplit f, hrest, Function.update_self]
  omega

end Families

end RiscvHypervisor.TransitionSystem
