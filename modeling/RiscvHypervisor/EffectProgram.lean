import RiscvHypervisor.TransitionSystem

/-!
Programs that access a shared device or memory one operation at a time.  A
program is a tree: either a result, a panic, or an access with a continuation
for every answer.  It can be executed alone or interleaved with others, access
by access.
-/

namespace RiscvHypervisor.EffectProgram

open RiscvHypervisor.TransitionSystem

/-- The accesses a program can make and the type of the answer to each. -/
structure Effect where
  Op : Type
  Answer : Op → Type

inductive Program (E : Effect) (α : Type) : Type
  | done (a : α)
  | panic (message : String)
  | access (o : E.Op) (k : E.Answer o → Program E α)

namespace Program

variable {E : Effect} {α β γ : Type}

def bind : Program E α → (α → Program E β) → Program E β
  | .done a, f => f a
  | .panic message, _ => .panic message
  | .access o k, f => .access o fun r => (k r).bind f

instance : Monad (Program E) where
  pure := .done
  bind := bind

/-- A single access. -/
def perform (o : E.Op) : Program E (E.Answer o) := .access o .done

@[simp] theorem pure_eq (a : α) : (pure a : Program E α) = .done a := rfl

@[simp] theorem done_bind (a : α) (f : α → Program E β) :
    (Program.done a >>= f) = f a := rfl

@[simp] theorem panic_bind (message : String) (f : α → Program E β) :
    (Program.panic message >>= f) = .panic message := rfl

@[simp] theorem access_bind (o : E.Op) (k : E.Answer o → Program E α) (f : α → Program E β) :
    (Program.access o k >>= f) = .access o fun r => k r >>= f := rfl

@[simp] theorem perform_bind (o : E.Op) (f : E.Answer o → Program E β) :
    (perform o >>= f) = .access o f := rfl

theorem bind_assoc (p : Program E α) (f : α → Program E β) (g : β → Program E γ) :
    (p >>= f >>= g) = p >>= fun a => f a >>= g := by
  induction p with
  | done a => rfl
  | panic message => rfl
  | access o k ih => simp [ih]

/-- The result of a program that has come to an end. -/
def outcome : Program E α → Option (Except String α)
  | .done a => some (.ok a)
  | .panic message => some (.error message)
  | .access _ _ => none

/-- The program with its panic as a result. -/
def attempt : Program E α → Program E (Except String α)
  | .done a => .done (.ok a)
  | .panic message => .done (.error message)
  | .access o k => .access o fun r => (k r).attempt

/-- The program up to its first access that traps; `none` says that it came to one. -/
def trapping (traps : E.Op → Bool) : Program E α → Program E (Option α)
  | .done a => .done (some a)
  | .panic message => .panic message
  | .access o k => if traps o then .done none else .access o fun r => (k r).trapping traps

/-- Whatever the answers, the program does not panic. -/
def NeverPanics : Program E α → Prop
  | .done _ => True
  | .panic _ => False
  | .access _ k => ∀ r, (k r).NeverPanics

theorem neverPanics_attempt (p : Program E α) : p.attempt.NeverPanics := by
  induction p with
  | done a => trivial
  | panic message => trivial
  | access o k ih => exact ih

theorem NeverPanics.bind {p : Program E α} {f : α → Program E β} (hp : p.NeverPanics)
    (hf : ∀ a, (f a).NeverPanics) : (p >>= f).NeverPanics := by
  induction p with
  | done a => exact hf a
  | panic message => exact hp.elim
  | access o k ih => exact fun r => ih r (hp r)

theorem neverPanics_ite {c : Prop} [Decidable c] {p q : Program E α} (hp : p.NeverPanics)
    (hq : q.NeverPanics) : (if c then p else q).NeverPanics := by
  split
  · exact hp
  · exact hq

theorem NeverPanics.attempt_bind {p : Program E α} (hp : p.NeverPanics) (f : α → Program E β) :
    (p >>= f).attempt = p >>= fun a => (f a).attempt := by
  induction p with
  | done a => rfl
  | panic message => exact hp.elim
  | access o k ih =>
      simp only [access_bind, attempt]
      congr 1
      funext r
      exact ih r (hp r)

theorem attempt_bind (p : Program E α) (f : α → Program E β) :
    (p >>= f).attempt = p.attempt >>= fun r =>
      match r with
      | .ok a => (f a).attempt
      | .error message => .done (.error message) := by
  induction p with
  | done a => rfl
  | panic message => rfl
  | access o k ih =>
      simp only [access_bind, attempt]
      congr 1
      funext r
      exact ih r

theorem trapping_bind (traps : E.Op → Bool) (p : Program E α) (f : α → Program E β) :
    (p >>= f).trapping traps = p.trapping traps >>= fun r =>
      match r with
      | none => .done none
      | some a => (f a).trapping traps := by
  induction p with
  | done a => rfl
  | panic message => rfl
  | access o k ih =>
      simp only [access_bind, trapping]
      split
      · rfl
      · simp only [access_bind]
        congr 1
        funext r
        exact ih r

/-- Whatever the answers, the program makes only accesses that satisfy `P`. -/
def Uses (P : E.Op → Prop) : Program E α → Prop
  | .done _ => True
  | .panic _ => True
  | .access o k => P o ∧ ∀ r, (k r).Uses P

@[simp] theorem uses_done (P : E.Op → Prop) (a : α) : (Program.done a : Program E α).Uses P :=
  trivial

@[simp] theorem uses_panic (P : E.Op → Prop) (message : String) :
    (Program.panic message : Program E α).Uses P := trivial

@[simp] theorem uses_access (P : E.Op → Prop) (o : E.Op) (k : E.Answer o → Program E α) :
    (Program.access o k).Uses P ↔ P o ∧ ∀ r, (k r).Uses P := Iff.rfl

theorem Uses.bind {P : E.Op → Prop} {p : Program E α} {f : α → Program E β}
    (hp : p.Uses P) (hf : ∀ a, (f a).Uses P) : (p >>= f).Uses P := by
  induction p with
  | done a => exact hf a
  | panic message => trivial
  | access o k ih => exact ⟨hp.1, fun r => ih r (hp.2 r)⟩

theorem Uses.mono {P Q : E.Op → Prop} {p : Program E α} (hp : p.Uses P)
    (h : ∀ o, P o → Q o) : p.Uses Q := by
  induction p with
  | done a => trivial
  | panic message => trivial
  | access o k ih => exact ⟨h o hp.1, fun r => ih r (hp.2 r)⟩

theorem Uses.attempt {P : E.Op → Prop} {p : Program E α} (hp : p.Uses P) : p.attempt.Uses P := by
  induction p with
  | done a => trivial
  | panic message => trivial
  | access o k ih => exact ⟨hp.1, fun r => ih r (hp.2 r)⟩

theorem Uses.trapping {P : E.Op → Prop} {p : Program E α} (hp : p.Uses P) (traps : E.Op → Bool) :
    (p.trapping traps).Uses P := by
  induction p with
  | done a => trivial
  | panic message => trivial
  | access o k ih =>
      rw [Program.trapping]
      split
      · trivial
      · exact ⟨hp.1, fun r => ih r (hp.2 r)⟩

/-- Whatever the answers, the program makes only accesses that satisfy `P` and then
returns `a`. -/
def Returns (P : E.Op → Prop) (a : α) : Program E α → Prop
  | .done b => b = a
  | .panic _ => False
  | .access o k => P o ∧ ∀ r, (k r).Returns P a

theorem Returns.bind {P : E.Op → Prop} {p : Program E α} {f : α → Program E β} {a : α} {b : β}
    (hp : p.Returns P a) (hf : (f a).Returns P b) : (p >>= f).Returns P b := by
  induction p with
  | done a' =>
      obtain rfl : a' = a := hp
      exact hf
  | panic message => exact hp.elim
  | access o k ih => exact ⟨hp.1, fun r => ih r (hp.2 r)⟩

theorem uses_perform {P : E.Op → Prop} {o : E.Op} (h : P o) : (perform o).Uses P :=
  ⟨h, fun _ => trivial⟩

theorem uses_ite {P : E.Op → Prop} {c : Prop} [Decidable c] {p q : Program E α}
    (hp : p.Uses P) (hq : q.Uses P) : (if c then p else q).Uses P := by
  split
  · exact hp
  · exact hq

theorem uses_foldlM {P : E.Op → Prop} {f : β → α → Program E β} {xs : List α}
    (hf : ∀ b, ∀ a ∈ xs, (f b a).Uses P) (b : β) : (xs.foldlM f b).Uses P := by
  induction xs generalizing b with
  | nil => trivial
  | cons a xs ih =>
      rw [List.foldlM_cons]
      refine Uses.bind (hf b a (by simp)) fun b' => ih (fun b'' a' ha' => ?_) b'
      exact hf b'' a' (by simp [ha'])

end Program

/-- The device: the answer to an access and the state after it. -/
abbrev Handler (E : Effect) (σ : Type) := (o : E.Op) → σ → E.Answer o × σ

section Execution

variable {E : Effect} {α β σ : Type}

/-- Run the program alone. -/
def exec (H : Handler E σ) : Program E α → σ → Except String α × σ
  | .done a, s => (.ok a, s)
  | .panic message, s => (.error message, s)
  | .access o k, s => exec H (k (H o s).1) (H o s).2

/-- The accesses the program makes when it runs alone, each with the state of
the device before it. -/
def accesses (H : Handler E σ) : Program E α → σ → List (σ × E.Op)
  | .done _, _ => []
  | .panic _, _ => []
  | .access o k, s => (s, o) :: accesses H (k (H o s).1) (H o s).2

variable (H : Handler E σ)

@[simp] theorem exec_done (a : α) (s : σ) :
    exec H (.done a : Program E α) s = (.ok a, s) := rfl

@[simp] theorem exec_panic (message : String) (s : σ) :
    exec H (.panic message : Program E α) s = (.error message, s) := rfl

@[simp] theorem exec_access (o : E.Op) (k : E.Answer o → Program E α) (s : σ) :
    exec H (.access o k) s = exec H (k (H o s).1) (H o s).2 := rfl

variable {H} in
theorem exec_of_outcome {p : Program E α} {a : Except String α} (h : p.outcome = some a)
    (s : σ) : exec H p s = (a, s) := by
  cases p with
  | done b =>
      cases h
      rfl
  | panic message =>
      cases h
      rfl
  | access o k => cases h

theorem exec_bind_ok {p : Program E α} {f : α → Program E β} {s s' : σ} {a : α}
    (h : exec H p s = (.ok a, s')) : exec H (p >>= f) s = exec H (f a) s' := by
  induction p generalizing s with
  | done b =>
      cases h
      rfl
  | panic message => cases h
  | access o k ih => exact ih _ h

theorem exec_bind_error {p : Program E α} {f : α → Program E β} {s s' : σ} {message : String}
    (h : exec H p s = (.error message, s')) : exec H (p >>= f) s = (.error message, s') := by
  induction p generalizing s with
  | done b => cases h
  | panic message =>
      cases h
      rfl
  | access o k ih => exact ih _ h

theorem exec_of_toOption {p : Program E α} {s : σ} {a : α}
    (h : (exec H p s).1.toOption = some a) : exec H p s = (.ok a, (exec H p s).2) := by
  rcases hp : exec H p s with ⟨_ | b, t⟩
  · rw [hp] at h
    cases h
  · rw [hp] at h
    cases h
    rfl

theorem Program.Returns.exec_eq {P : E.Op → Prop} {p : Program E α} {a : α} (hp : p.Returns P a)
    (s : σ) : (exec H p s).1 = .ok a := by
  induction p generalizing s with
  | done b => exact congrArg Except.ok hp
  | panic message => exact hp.elim
  | access o k ih => exact ih _ (hp.2 _) _

theorem exec_attempt (p : Program E α) (s : σ) :
    exec H p.attempt s = (.ok (exec H p s).1, (exec H p s).2) := by
  induction p generalizing s with
  | done a => rfl
  | panic message => rfl
  | access o k ih => exact ih _ _

theorem accesses_attempt (p : Program E α) (s : σ) :
    accesses H p.attempt s = accesses H p s := by
  induction p generalizing s with
  | done a => rfl
  | panic message => rfl
  | access o k ih => exact congrArg _ (ih _ _)

theorem accesses_bind_ok {p : Program E α} {f : α → Program E β} {s s' : σ} {a : α}
    (h : exec H p s = (.ok a, s')) :
    accesses H (p >>= f) s = accesses H p s ++ accesses H (f a) s' := by
  induction p generalizing s with
  | done b =>
      cases h
      rfl
  | panic message => cases h
  | access o k ih => exact congrArg _ (ih _ h)

theorem accesses_bind_error {p : Program E α} {f : α → Program E β} {s s' : σ} {message : String}
    (h : exec H p s = (.error message, s')) : accesses H (p >>= f) s = accesses H p s := by
  induction p generalizing s with
  | done b => cases h
  | panic message => rfl
  | access o k ih => exact congrArg _ (ih _ h)

/-- A program that does not panic returns. -/
theorem Program.NeverPanics.exec_ok {p : Program E α} (hp : p.NeverPanics) (s : σ) :
    ∃ a s', exec H p s = (.ok a, s') := by
  induction p generalizing s with
  | done a => exact ⟨a, s, rfl⟩
  | panic message => exact hp.elim
  | access o k ih => exact ih _ (hp _) _

/-- A sequence that returns has returned from its first part. -/
theorem exists_of_exec_bind {p : Program E α} {f : α → Program E β} {s s' : σ} {b : β}
    (h : exec H (p >>= f) s = (.ok b, s')) :
    ∃ a t, exec H p s = (.ok a, t) ∧ exec H (f a) t = (.ok b, s') := by
  rcases hp : exec H p s with ⟨_ | a, t⟩
  · rw [exec_bind_error H hp] at h
    cases h
  · rw [exec_bind_ok H hp] at h
    exact ⟨a, t, rfl, h⟩

variable {H}

/-- What every access of a kind preserves is preserved by a program that makes
only accesses of that kind. -/
theorem exec_invariant {P : E.Op → Prop} (Inv : σ → Prop)
    (hinv : ∀ o s, P o → Inv s → Inv (H o s).2) {p : Program E α} (hp : p.Uses P) {s : σ}
    (hs : Inv s) : Inv (exec H p s).2 := by
  induction p generalizing s with
  | done a => exact hs
  | panic message => exact hs
  | access o k ih => exact ih _ (hp.2 _) (hinv o s hp.1 hs)

/-- What holds of the accesses that a program can make holds of those it makes. -/
theorem forall_mem_accesses_of_uses {P : E.Op → Prop} {p : Program E α} (hp : p.Uses P) (s : σ) :
    ∀ x ∈ accesses H p s, P x.2 := by
  induction p generalizing s with
  | done a => exact fun x hx => absurd hx List.not_mem_nil
  | panic message => exact fun x hx => absurd hx List.not_mem_nil
  | access o k ih => exact List.forall_mem_cons.mpr ⟨hp.1, ih _ (hp.2 _) _⟩

end Execution

section Pools

variable {E : Effect} {α σ ι : Type} [DecidableEq ι]

/-- Programs that share one device. -/
structure Pool (E : Effect) (α σ ι : Type) where
  threads : ι → Program E α
  shared : σ

/-- One access of thread `i`. -/
def poolStep (H : Handler E σ) (c : Pool E α σ ι) (i : ι) : Option (Pool E α σ ι) :=
  match c.threads i with
  | .done _ => none
  | .panic _ => none
  | .access o k =>
      some
        { threads := Function.update c.threads i (k (H o c.shared).1)
          shared := (H o c.shared).2 }

theorem exists_of_poolStep {H : Handler E σ} {c c' : Pool E α σ ι} {i : ι}
    (h : poolStep H c i = some c') :
    ∃ o k, c.threads i = .access o k ∧ c' =
      { threads := Function.update c.threads i (k (H o c.shared).1)
        shared := (H o c.shared).2 } := by
  unfold poolStep at h
  split at h
  · cases h
  · cases h
  · rename_i o k hk
    exact ⟨o, k, hk, (Option.some.inj h).symm⟩

/-- A program of a pool runs to its end as it does alone. -/
theorem run_pool_of_exec {H : Handler E σ} {c : Pool E α σ ι} {i : ι} {a : α} {s' : σ}
    (h : exec H (c.threads i) c.shared = (.ok a, s')) :
    run (poolStep H) c (List.replicate (accesses H (c.threads i) c.shared).length i) =
      some { threads := Function.update c.threads i (.done a), shared := s' } := by
  generalize hp : c.threads i = p at h
  induction p generalizing c with
  | done b =>
      cases h
      have hsame : Function.update c.threads i (.done a) = c.threads := by
        rw [← hp, Function.update_eq_self]
      rw [hsame]
      rfl
  | panic message => cases h
  | access o k ih =>
      have hnext := ih (H o c.shared).1
        (c := { threads := Function.update c.threads i (k (H o c.shared).1)
                shared := (H o c.shared).2 }) (by simp) h
      simpa [accesses, List.replicate_succ, run, poolStep, hp] using hnext

/-- The pool with the panics of its programs as results. -/
def Pool.attempt (c : Pool E α σ ι) : Pool E (Except String α) σ ι where
  threads i := (c.threads i).attempt
  shared := c.shared

theorem poolStep_attempt (H : Handler E σ) (c : Pool E α σ ι) (i : ι) :
    poolStep H c.attempt i = (poolStep H c i).map Pool.attempt := by
  cases hthread : c.threads i with
  | done a => simp [poolStep, Pool.attempt, hthread, Program.attempt]
  | panic message => simp [poolStep, Pool.attempt, hthread, Program.attempt]
  | access o k =>
      simp only [poolStep, Pool.attempt, hthread, Program.attempt, Option.map_some,
        Option.some.injEq, Pool.mk.injEq, and_true]
      funext j
      rcases eq_or_ne j i with rfl | hj
      · simp
      · simp [hj]

theorem run_pool_attempt (H : Handler E σ) (c : Pool E α σ ι) (schedule : List ι) :
    run (poolStep H) c.attempt schedule = (run (poolStep H) c schedule).map Pool.attempt := by
  induction schedule generalizing c with
  | nil => rfl
  | cons i rest ih =>
      rw [run, run, poolStep_attempt]
      cases hstep : poolStep H c i with
      | none => rfl
      | some d => exact ih d

/-- A program of a pool can be run to its end, the others waiting. -/
theorem exists_run_end (H : Handler E σ) (c : Pool E α σ ι) (i : ι) :
    ∃ n d, run (poolStep H) c (List.replicate n i) = some d ∧
      ((∃ a, d.threads i = .done a) ∨ ∃ message, d.threads i = .panic message) := by
  have hend := run_pool_of_exec (c := c.attempt) (i := i) (exec_attempt H (c.threads i) c.shared)
  rw [run_pool_attempt, Option.map_eq_some_iff] at hend
  obtain ⟨d, hrun, hd⟩ := hend
  have hthread := congrArg (fun e : Pool E (Except String α) σ ι => e.threads i) hd
  simp only [Pool.attempt, Function.update_self] at hthread
  refine ⟨_, d, hrun, ?_⟩
  cases hp : d.threads i with
  | done a => exact .inl ⟨a, rfl⟩
  | panic message => exact .inr ⟨message, rfl⟩
  | access o k =>
      rw [hp] at hthread
      cases hthread

/-- A step leaves the other programs where they are. -/
theorem poolStep_threads_of_ne {H : Handler E σ} {c d : Pool E α σ ι} {i j : ι}
    (h : poolStep H c i = some d) (hij : j ≠ i) : d.threads j = c.threads j := by
  obtain ⟨o, k, -, rfl⟩ := exists_of_poolStep h
  exact Function.update_of_ne hij _ _

theorem run_pool_threads_of_notMem {H : Handler E σ} {c d : Pool E α σ ι} {schedule : List ι}
    (h : run (poolStep H) c schedule = some d) {j : ι} (hj : j ∉ schedule) :
    d.threads j = c.threads j := by
  induction schedule generalizing c with
  | nil =>
      cases h
      rfl
  | cons i rest ih =>
      obtain ⟨e, hstep, hrest⟩ := Option.bind_eq_some_iff.mp h
      rw [List.mem_cons, not_or] at hj
      rw [ih hrest hj.2, poolStep_threads_of_ne hstep hj.1]

/-- All programs of a pool can be run to their ends, one after the other. -/
theorem exists_run_all [Fintype ι] (H : Handler E σ) (c : Pool E α σ ι) :
    ∃ schedule d, run (poolStep H) c schedule = some d ∧
      ∀ i, (∃ a, d.threads i = .done a) ∨ ∃ message, d.threads i = .panic message := by
  have hsome : ∀ l : List ι, l.Nodup → ∃ schedule d, run (poolStep H) c schedule = some d ∧
      (∀ i ∈ l, (∃ a, d.threads i = .done a) ∨ ∃ message, d.threads i = .panic message) := by
    intro l hl
    induction l with
    | nil => exact ⟨[], c, rfl, by simp⟩
    | cons i l ih =>
        obtain ⟨hnot, hl⟩ := List.nodup_cons.mp hl
        obtain ⟨schedule, d, hrun, hdone⟩ := ih hl
        obtain ⟨n, e, hend, hi⟩ := exists_run_end H d i
        refine ⟨schedule ++ List.replicate n i, e, run_trans hrun hend, fun j hj => ?_⟩
        rcases List.mem_cons.mp hj with rfl | hj
        · exact hi
        · have hne : j ∉ List.replicate n i := fun hmem =>
            hnot (List.eq_of_mem_replicate hmem ▸ hj)
          rw [run_pool_threads_of_notMem hend hne]
          exact hdone j hj
  obtain ⟨schedule, d, hrun, hdone⟩ := hsome Finset.univ.toList (Finset.nodup_toList _)
  exact ⟨schedule, d, hrun, fun i => hdone i (by simp)⟩

/-- Two programs of a pool can take turns until one of them has come to its end. -/
theorem exists_run_turns (H : Handler E σ) (c : Pool E α σ ι) {i j : ι} (hij : i ≠ j) :
    ∃ n d, run (poolStep H) c (List.replicate n [i, j]).flatten = some d ∧
      ∃ l, (∃ a, d.threads l = .done a) ∨ ∃ message, d.threads l = .panic message := by
  generalize hi : c.threads i = p
  induction p generalizing c with
  | done a => exact ⟨0, c, rfl, i, .inl ⟨a, hi⟩⟩
  | panic message => exact ⟨0, c, rfl, i, .inr ⟨message, hi⟩⟩
  | access o k ih =>
      cases hj : c.threads j with
      | done a => exact ⟨0, c, rfl, j, .inl ⟨a, hj⟩⟩
      | panic message => exact ⟨0, c, rfl, j, .inr ⟨message, hj⟩⟩
      | access o' k' =>
          obtain ⟨c₁, hstep, hi₁, hj₁⟩ : ∃ c₁, poolStep H c i = some c₁ ∧
              c₁.threads i = k (H o c.shared).1 ∧ c₁.threads j = .access o' k' := by
            rw [poolStep, hi]
            exact ⟨_, rfl, Function.update_self _ _ _, (Function.update_of_ne hij.symm _ _).trans hj⟩
          obtain ⟨c₂, hstep', hi₂⟩ : ∃ c₂, poolStep H c₁ j = some c₂ ∧
              c₂.threads i = c₁.threads i := by
            rw [poolStep, hj₁]
            exact ⟨_, rfl, Function.update_of_ne hij _ _⟩
          obtain ⟨n, d, hrun, hend⟩ := ih _ c₂ (hi₂.trans hi₁)
          refine ⟨n + 1, d, ?_, hend⟩
          rw [List.replicate_succ, List.flatten_cons, List.cons_append, List.cons_append, run, hstep,
            Option.bind_some, run, hstep', Option.bind_some]
          exact hrun

/-- A guard that does not look at the results is met as before. -/
theorem guardedRun_attempt {H : Handler E σ} {guard : Pool E α σ ι → ι → Prop}
    {guard' : Pool E (Except String α) σ ι → ι → Prop}
    (hguard : ∀ d i, guard d i → guard' d.attempt i) {c : Pool E α σ ι} {schedule : List ι}
    (h : GuardedRun (poolStep H) guard c schedule) :
    GuardedRun (poolStep H) guard' c.attempt schedule := by
  induction schedule generalizing c with
  | nil => trivial
  | cons i rest ih =>
      intro d' hstep
      rw [poolStep_attempt, Option.map_eq_some_iff] at hstep
      obtain ⟨d, hd, rfl⟩ := hstep
      obtain ⟨hi, hrest⟩ := h d hd
      exact ⟨hguard c i hi, ih hrest⟩

end Pools

section Independence

variable {E : Effect} {α σ : Type}

/-- Neither of the two accesses can tell whether the other came first. -/
def Commutes (H : Handler E σ) (o o' : E.Op) : Prop :=
  ∀ s, (H o (H o' s).2).1 = (H o s).1 ∧ (H o' (H o s).2).1 = (H o' s).1 ∧
    (H o (H o' s).2).2 = (H o' (H o s).2).2

theorem Commutes.symm {H : Handler E σ} {o o' : E.Op} (h : Commutes H o o') :
    Commutes H o' o :=
  fun s => ⟨(h s).2.1, (h s).1, (h s).2.2.symm⟩

/-- The results of two programs run one after the other, and the final state. -/
def inSequence (H : Handler E σ) (p q : Program E α) (s : σ) :
    Except String α × Except String α × σ :=
  let r := exec H p s
  let r' := exec H q r.2
  (r.1, r'.1, r'.2)

variable {H : Handler E σ}

/-- An access moves from before a program to after it. -/
theorem exec_commutes {Q : E.Op → Prop} {p : Program E α} {o : E.Op}
    (hcomm : ∀ o', Q o' → Commutes H o o') (hp : p.Uses Q) (s : σ) :
    (exec H p (H o s).2).1 = (exec H p s).1 ∧
      (H o (exec H p s).2).1 = (H o s).1 ∧
      (exec H p (H o s).2).2 = (H o (exec H p s).2).2 := by
  induction p generalizing s with
  | done a => exact ⟨rfl, rfl, rfl⟩
  | panic message => exact ⟨rfl, rfl, rfl⟩
  | access o' k ih =>
      obtain ⟨hanswer, hanswer', hstate⟩ := hcomm o' hp.1 s
      obtain ⟨hresult, hlast, hfinal⟩ := ih (H o' s).1 (hp.2 _) (H o' s).2
      simp only [exec_access]
      rw [hanswer', ← hstate]
      exact ⟨hresult, hlast.trans hanswer, hfinal⟩

variable {P Q : E.Op → Prop}

theorem inSequence_swap (hcomm : ∀ o o', P o → Q o' → Commutes H o o')
    {p q : Program E α} (hp : p.Uses P) (hq : q.Uses Q) (s : σ) :
    inSequence H p q s =
      ((inSequence H q p s).2.1, (inSequence H q p s).1, (inSequence H q p s).2.2) := by
  induction p generalizing s with
  | done a => rfl
  | panic message => rfl
  | access o k ih =>
      obtain ⟨hresult, hanswer, hfinal⟩ := exec_commutes (fun o' ho' => hcomm o o' hp.1 ho') hq s
      have hnext := ih (H o s).1 (hp.2 _) (H o s).2
      simp only [inSequence, exec_access] at hnext ⊢
      rw [hnext, hresult, hanswer, hfinal]

/-- Every interleaving of two independent programs ends as the first followed
by the second does. -/
theorem run_pool_eq_inSequence (hcomm : ∀ o o', P o → Q o' → Commutes H o o')
    {schedule : List Bool} {c c' : Pool E α σ Bool}
    (hp : (c.threads false).Uses P) (hq : (c.threads true).Uses Q)
    (hrun : run (poolStep H) c schedule = some c') {a b : Except String α}
    (ha : (c'.threads false).outcome = some a) (hb : (c'.threads true).outcome = some b) :
    (a, b, c'.shared) = inSequence H (c.threads false) (c.threads true) c.shared := by
  induction schedule generalizing c with
  | nil =>
      cases Option.some.inj hrun
      simp [inSequence, exec_of_outcome ha, exec_of_outcome hb]
  | cons i schedule ih =>
      simp only [run, Option.bind_eq_some_iff] at hrun
      obtain ⟨d, hstep, hrest⟩ := hrun
      obtain ⟨o, k, hthread, rfl⟩ := exists_of_poolStep hstep
      cases i with
      | false =>
          rw [hthread] at hp
          rw [ih (by simpa using hp.2 _) (by simpa using hq) hrest, hthread]
          simp [inSequence]
      | true =>
          rw [hthread] at hq
          rw [ih (by simpa using hp) (by simpa using hq.2 _) hrest, hthread]
          obtain ⟨hresult, hanswer, hfinal⟩ :=
            exec_commutes (fun o' ho' => (hcomm o' o ho' hq.1).symm) hp c.shared
          simp only [inSequence, exec_access, Function.update_self, ne_eq, Bool.false_eq_true,
            not_false_eq_true, Function.update_of_ne]
          rw [hresult, hanswer, hfinal]

end Independence

section Sums

variable {E F : Effect} {α σ τ : Type}

/-- Accesses to either of two devices. -/
abbrev Effect.sum (E F : Effect) : Effect where
  Op := E.Op ⊕ F.Op
  Answer
    | .inl o => E.Answer o
    | .inr o => F.Answer o

/-- A program of the first device beside the second. -/
def Program.onLeft (F : Effect) : Program E α → Program (E.sum F) α
  | .done a => .done a
  | .panic message => .panic message
  | .access o k => .access (.inl o) fun r => (k r).onLeft F

/-- A program of the second device beside the first. -/
def Program.onRight (E : Effect) : Program F α → Program (E.sum F) α
  | .done a => .done a
  | .panic message => .panic message
  | .access o k => .access (.inr o) fun r => (k r).onRight E

def sumHandler (H : Handler E σ) (K : Handler F τ) : Handler (E.sum F) (σ × τ)
  | .inl o, s => ((H o s.1).1, (H o s.1).2, s.2)
  | .inr o, s => ((K o s.2).1, s.1, (K o s.2).2)

variable (H : Handler E σ) (K : Handler F τ)

theorem exec_onLeft (p : Program E α) (s : σ) (t : τ) :
    exec (sumHandler H K) (p.onLeft F) (s, t) = ((exec H p s).1, (exec H p s).2, t) := by
  induction p generalizing s with
  | done a => rfl
  | panic message => rfl
  | access o k ih => exact ih _ _

theorem exec_onRight (p : Program F α) (s : σ) (t : τ) :
    exec (sumHandler H K) (p.onRight E) (s, t) = ((exec K p t).1, s, (exec K p t).2) := by
  induction p generalizing t with
  | done a => rfl
  | panic message => rfl
  | access o k ih => exact ih _ _

theorem uses_onRight (p : Program F α) :
    (p.onRight E).Uses fun o => ∃ o', o = Sum.inr o' := by
  induction p with
  | done a => trivial
  | panic message => trivial
  | access o k ih => exact ⟨⟨o, rfl⟩, ih⟩

end Sums

section Notes

variable {E : Effect} {α β σ : Type}

/-- A note that a program makes beside its accesses. -/
abbrev noteEffect : Effect where
  Op := Unit
  Answer _ := Unit

/-- The program without its notes. -/
def Program.erase : Program (E.sum noteEffect) α → Program E α
  | .done a => .done a
  | .panic message => .panic message
  | .access (.inl o) k => .access o fun r => (k r).erase
  | .access (.inr _) k => (k ()).erase

variable (H : Handler E σ)

end Notes

end RiscvHypervisor.EffectProgram
