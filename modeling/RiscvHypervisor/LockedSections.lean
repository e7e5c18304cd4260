import RiscvHypervisor.EffectProgram

/-!
Programs whose accesses to a shared state are of two kinds.  Some take effect in
one step.  The others are sections of several steps, and one lock is held from
the first to the last of them.  When each section does what an atomic access
does, every interleaving of the steps is one of atomic accesses.
-/

namespace RiscvHypervisor.LockedSections

open RiscvHypervisor.EffectProgram
open RiscvHypervisor.TransitionSystem

/-- How the accesses are carried out.  A section goes from `start` by `next` until
it has an answer; an access without a section is a single step. -/
structure Sections (E : Effect) (τ : Type) where
  Code : E.Op → Type
  start : (o : E.Op) → Option (Code o)
  next : (o : E.Op) → Code o → τ → (Code o ⊕ E.Answer o) × τ
  direct : Handler E τ

section Machines

variable {E : Effect} {τ : Type}

/-- Where a thread is: between two accesses, in a section, or behind a section with
the lock not yet released. -/
inductive Stage (S : Sections E τ) (α : Type) : Type
  | outside (p : Program E α)
  | inside (o : E.Op) (code : S.Code o) (k : E.Answer o → Program E α)
  | closing (p : Program E α)

/-- Threads that share a state and the lock. -/
structure Machine (S : Sections E τ) (α ι : Type) where
  stages : ι → Stage S α
  owner : Option ι
  shared : τ

variable {S : Sections E τ} {α ι ε : Type} [DecidableEq ι]

def Machine.move (c : Machine S α ι) (i : ι) (stage : Stage S α) (owner : Option ι) (s : τ) :
    Machine S α ι where
  stages := Function.update c.stages i stage
  owner := owner
  shared := s

/-- One step of a thread.  A section begins when the lock is free. -/
def threadStep (c : Machine S α ι) (i : ι) : Option (Machine S α ι) :=
  match c.stages i with
  | .outside (.done _) => none
  | .outside (.panic _) => none
  | .outside (.access o k) =>
      match S.start o with
      | none =>
          some (c.move i (.outside (k (S.direct o c.shared).1)) c.owner (S.direct o c.shared).2)
      | some code =>
          match c.owner with
          | none => some (c.move i (.inside o code k) (some i) c.shared)
          | some _ => none
  | .inside o code k =>
      match S.next o code c.shared with
      | (.inl code', s) => some (c.move i (.inside o code' k) c.owner s)
      | (.inr a, s) => some (c.move i (.closing (k a)) c.owner s)
  | .closing p => some (c.move i (.outside p) none c.shared)

/-- The surroundings take steps of their own. -/
def machineStep (S : Sections E τ) (env : ε → τ → τ) (c : Machine S α ι) :
    ι ⊕ ε → Option (Machine S α ι)
  | .inl i => threadStep c i
  | .inr e => some { c with shared := env e c.shared }

def Machine.initial (S : Sections E τ) (programs : ι → Program E α) (s : τ) : Machine S α ι where
  stages i := .outside (programs i)
  owner := none
  shared := s

/-- The ways in which a thread moves. -/
inductive Move (S : Sections E τ) (α : Type) {ι : Type} (i : ι) (s : τ) :
    Stage S α → Option ι → Stage S α → Option ι → τ → Prop
  | direct {o : E.Op} {k : E.Answer o → Program E α} {owner : Option ι} : S.start o = none →
      Move S α i s (.outside (.access o k)) owner (.outside (k (S.direct o s).1)) owner
        (S.direct o s).2
  | enter {o : E.Op} {code : S.Code o} {k : E.Answer o → Program E α} : S.start o = some code →
      Move S α i s (.outside (.access o k)) none (.inside o code k) (some i) s
  | inside {o : E.Op} {code code' : S.Code o} {k : E.Answer o → Program E α} {owner : Option ι}
      {s' : τ} : S.next o code s = (.inl code', s') →
      Move S α i s (.inside o code k) owner (.inside o code' k) owner s'
  | answer {o : E.Op} {code : S.Code o} {k : E.Answer o → Program E α} {owner : Option ι}
      {a : E.Answer o} {s' : τ} : S.next o code s = (.inr a, s') →
      Move S α i s (.inside o code k) owner (.closing (k a)) owner s'
  | leave {p : Program E α} {owner : Option ι} :
      Move S α i s (.closing p) owner (.outside p) none s

theorem move_of_threadStep {c c' : Machine S α ι} {i : ι} (h : threadStep c i = some c') :
    ∃ stage owner s, Move S α i c.shared (c.stages i) c.owner stage owner s ∧
      c' = c.move i stage owner s := by
  unfold threadStep at h
  split at h
  · cases h
  · cases h
  · rename_i o k hstage
    split at h
    · rename_i hstart
      cases h
      exact ⟨_, _, _, hstage ▸ .direct hstart, rfl⟩
    · rename_i code hstart
      split at h
      · rename_i howner
        cases h
        refine ⟨.inside o code k, some i, c.shared, ?_, rfl⟩
        rw [hstage, howner]
        exact .enter hstart
      · cases h
  · rename_i o code k hstage
    split at h
    · rename_i code' s hnext
      cases h
      exact ⟨_, _, _, hstage ▸ .inside hnext, rfl⟩
    · rename_i a s hnext
      cases h
      exact ⟨_, _, _, hstage ▸ .answer hnext, rfl⟩
  · rename_i p hstage
    cases h
    exact ⟨_, _, _, hstage ▸ .leave, rfl⟩

def Stage.HasLock : Stage S α → Prop
  | .outside _ => False
  | .inside _ _ _ => True
  | .closing _ => True

def Stage.position : Stage S α → Option ((o : E.Op) × S.Code o)
  | .outside _ => none
  | .inside o code _ => some ⟨o, code⟩
  | .closing _ => none

/-- How far the section in progress is. -/
def Machine.position (c : Machine S α ι) : Option ((o : E.Op) × S.Code o) :=
  c.owner.bind fun i => (c.stages i).position

/-- The lock is held by the thread that is in a section. -/
def Machine.Exclusive (c : Machine S α ι) : Prop := ∀ i, c.owner = some i ↔ (c.stages i).HasLock

omit [DecidableEq ι] in
theorem Machine.Exclusive.position_eq {c : Machine S α ι} (h : c.Exclusive) {i : ι}
    (hlock : (c.stages i).HasLock) : c.position = (c.stages i).position := by
  rw [position, (h i).mpr hlock]
  rfl

theorem Move.exclusive {c : Machine S α ι} {i : ι} {stage : Stage S α} {owner : Option ι} {s : τ}
    (hmove : Move S α i c.shared (c.stages i) c.owner stage owner s) (h : c.Exclusive) :
    (c.move i stage owner s).Exclusive := by
  have hkeep : owner = c.owner → (stage.HasLock ↔ (c.stages i).HasLock) →
      (c.move i stage owner s).Exclusive := by
    intro howner hlock j
    rcases eq_or_ne j i with rfl | hne
    · simp only [Machine.move, Function.update_self, hlock, howner]
      exact h j
    · simp only [Machine.move, Function.update_of_ne hne, howner]
      exact h j
  generalize hstage : c.stages i = stage₀ at hmove hkeep
  generalize howner : c.owner = owner₀ at hmove hkeep
  cases hmove with
  | direct _ => exact hkeep rfl Iff.rfl
  | enter _ =>
      intro j
      rcases eq_or_ne j i with rfl | hne
      · simp [Machine.move, Stage.HasLock]
      · have hnot := mt (h j).mpr (by simp [howner])
        simp [Machine.move, hne, hnot, hne.symm]
  | inside _ => exact hkeep rfl Iff.rfl
  | answer _ => exact hkeep rfl Iff.rfl
  | leave =>
      have hself : c.owner = some i := (h i).mpr (by simp [hstage, Stage.HasLock])
      intro j
      rcases eq_or_ne j i with rfl | hne
      · simp [Machine.move, Stage.HasLock]
      · have hnot := mt (h j).mpr (by simp [hself, hne.symm])
        simp [Machine.move, hne, hnot]

theorem exclusive_of_machineStep {env : ε → τ → τ} {c c' : Machine S α ι} {label : ι ⊕ ε}
    (h : c.Exclusive) (hstep : machineStep S env c label = some c') : c'.Exclusive := by
  cases label with
  | inl i =>
      obtain ⟨stage, owner, s, hmove, rfl⟩ := move_of_threadStep hstep
      exact hmove.exclusive h
  | inr e =>
      cases hstep
      exact h

end Machines

/-- Whether an access is still to take effect, does so now, or has done so. -/
inductive Effects {E : Effect} {σ : Type} (H : Handler E σ) (o : E.Op) (t : σ) :
    Option (E.Answer o) → Option (E.Answer o) → σ → Prop
  | before : Effects H o t none none t
  | now : Effects H o t none (some (H o t).1) (H o t).2
  | after (a : E.Answer o) : Effects H o t (some a) (some a) t

/-- A reading of the sections as atomic accesses to a state of the other kind.  In a
section the answer is `settled` once the access has taken effect. -/
structure Reduction {E : Effect} {τ ε σ : Type} (S : Sections E τ) (env : ε → τ → τ)
    (H : Handler E σ) where
  settled : (o : E.Op) → S.Code o → Option (E.Answer o)
  Agree : Option ((o : E.Op) × S.Code o) → τ → σ → Prop
  start : ∀ {o code s t}, S.start o = some code → Agree none s t →
    settled o code = none ∧ Agree (some ⟨o, code⟩) s t
  inside : ∀ {o code code' s s' t}, S.next o code s = (.inl code', s') →
    Agree (some ⟨o, code⟩) s t →
    ∃ t', Effects H o t (settled o code) (settled o code') t' ∧ Agree (some ⟨o, code'⟩) s' t'
  answer : ∀ {o code a s s' t}, S.next o code s = (.inr a, s') → Agree (some ⟨o, code⟩) s t →
    ∃ t', Effects H o t (settled o code) (some a) t' ∧ Agree none s' t'
  direct : ∀ {o at? s t}, S.start o = none → Agree at? s t →
    (S.direct o s).1 = (H o t).1 ∧ Agree at? (S.direct o s).2 (H o t).2
  disturbed : ∀ {at? s t} e, Agree at? s t → Agree at? (env e s) t

section Atomicity

variable {E : Effect} {τ σ α ι ε : Type} [DecidableEq ι] {S : Sections E τ} {env : ε → τ → τ}
  {H : Handler E σ}

/-- The program from an access on whose answer may be settled. -/
def pending {o : E.Op} (k : E.Answer o → Program E α) : Option (E.Answer o) → Program E α
  | none => .access o k
  | some a => k a

/-- What is left of the program of a thread when its section is one access. -/
def Reduction.view (R : Reduction S env H) : Stage S α → Program E α
  | .outside p => p
  | .inside o code k => pending k (R.settled o code)
  | .closing p => p

/-- The machine and the pool of atomic programs are at the same point. -/
structure Follows (R : Reduction S env H) (c : Machine S α ι) (d : Pool E α σ ι) : Prop where
  exclusive : c.Exclusive
  threads : ∀ i, d.threads i = R.view (c.stages i)
  agree : R.Agree c.position c.shared d.shared

omit [DecidableEq ι] in
theorem follows_initial (R : Reduction S env H) (programs : ι → Program E α) {s : τ} {t : σ}
    (h : R.Agree none s t) : Follows R (.initial S programs s) ⟨programs, t⟩ where
  exclusive i := by simp [Machine.initial, Stage.HasLock]
  threads i := rfl
  agree := h

variable {R : Reduction S env H}

omit [DecidableEq ι] in
/-- A thread without the lock leaves the section in progress where it is. -/
theorem position_move_of_ne [DecidableEq ι] {c : Machine S α ι} {i : ι} (hlock : c.owner ≠ some i)
    (stage : Stage S α) (s : τ) : (c.move i stage c.owner s).position = c.position := by
  rw [Machine.position, Machine.position]
  cases howner : c.owner with
  | none => simp [Machine.move]
  | some j =>
      have hne : j ≠ i := fun heq => hlock (howner.trans (congrArg some heq))
      simp [Machine.move, hne]

theorem Follows.threads_move {c : Machine S α ι} {d : Pool E α σ ι} (h : Follows R c d) {i : ι}
    {stage : Stage S α} {p : Program E α} (hp : R.view stage = p) (j : ι) :
    Function.update d.threads i p j = R.view (Function.update c.stages i stage j) := by
  rcases eq_or_ne j i with rfl | hne
  · rw [Function.update_self, Function.update_self, hp]
  · rw [Function.update_of_ne hne, Function.update_of_ne hne, h.threads j]

/-- A thread that moves within one access takes an atomic step when the access has its
effect, and else none. -/
theorem Follows.of_effects {c : Machine S α ι} {d : Pool E α σ ι} (h : Follows R c d) {i : ι}
    {stage : Stage S α} {owner : Option ι} {s : τ} {t : σ} {o : E.Op}
    {k : E.Answer o → Program E α} {a b : Option (E.Answer o)}
    (hmove : (c.move i stage owner s).Exclusive) (heffects : Effects H o d.shared a b t)
    (hold : R.view (c.stages i) = pending k a) (hnew : R.view stage = pending k b)
    (hagree : R.Agree (c.move i stage owner s).position s t) :
    ∃ d', Leads (poolStep H) d d' ∧ Follows R (c.move i stage owner s) d' := by
  rw [← h.threads i] at hold
  cases heffects with
  | before =>
      refine ⟨d, .refl d, hmove, fun j => ?_, hagree⟩
      rw [Machine.move, ← h.threads_move hnew, ← hold, Function.update_eq_self]
  | now =>
      refine ⟨⟨Function.update d.threads i (k (H o d.shared).1), (H o d.shared).2⟩, ?_, hmove,
        h.threads_move hnew, hagree⟩
      apply Leads.single (l := i)
      rw [poolStep, hold, pending]
  | after a =>
      refine ⟨d, .refl d, hmove, fun j => ?_, hagree⟩
      rw [Machine.move, ← h.threads_move hnew, ← hold, Function.update_eq_self]

theorem Follows.of_move {c : Machine S α ι} {d : Pool E α σ ι} (h : Follows R c d) {i : ι}
    {stage : Stage S α} {owner : Option ι} {s : τ}
    (hmove : Move S α i c.shared (c.stages i) c.owner stage owner s) :
    ∃ d', Leads (poolStep H) d d' ∧ Follows R (c.move i stage owner s) d' := by
  have hexclusive := hmove.exclusive h.exclusive
  have hagree := h.agree
  -- a section in progress is that of `i` when `i` has the lock
  have hposition := h.exclusive.position_eq (i := i)
  have hlock := h.exclusive i
  generalize hstage : c.stages i = stage₀ at *
  generalize howner : c.owner = owner₀ at *
  cases hmove with
  | @direct o k _ hstart =>
      obtain ⟨hanswer, hnext⟩ := R.direct hstart hagree
      have hfree : c.owner ≠ some i := howner ▸ fun heq => hlock.mp heq
      refine h.of_effects (k := k) hexclusive .now (by rw [hstage]; rfl) ?_ ?_
      · rw [Reduction.view, hanswer]
        rfl
      · rw [← howner, position_move_of_ne hfree]
        exact hnext
  | @enter o code k hstart =>
      have hfree : c.position = none := by rw [Machine.position, howner]; rfl
      rw [hfree] at hagree
      obtain ⟨hsettled, hnext⟩ := R.start hstart hagree
      refine h.of_effects (o := o) (k := k) hexclusive .before (by rw [hstage]; rfl) ?_ ?_
      · rw [Reduction.view, hsettled]
      · rw [Machine.position]
        simpa [Machine.move, Stage.position] using hnext
  | @inside o code code' k _ _ hnext =>
      rw [hposition trivial] at hagree
      obtain ⟨t, heffects, hnext⟩ := R.inside hnext hagree
      refine h.of_effects hexclusive heffects (by rw [hstage]; rfl) rfl ?_
      rw [hexclusive.position_eq (i := i) (by simp [Machine.move, Stage.HasLock])]
      simpa [Machine.move, Stage.position] using hnext
  | @answer o code k _ a _ hnext =>
      rw [hposition trivial] at hagree
      obtain ⟨t, heffects, hnext⟩ := R.answer hnext hagree
      refine h.of_effects hexclusive heffects (by rw [hstage]; rfl) rfl ?_
      rw [hexclusive.position_eq (i := i) (by simp [Machine.move, Stage.HasLock])]
      simpa [Machine.move, Stage.position] using hnext
  | @leave p _ =>
      rw [hposition trivial] at hagree
      refine ⟨d, .refl d, hexclusive, fun j => ?_, hagree⟩
      rw [Machine.move, ← h.threads_move rfl, ← Function.update_eq_self i d.threads, h.threads i,
        hstage]
      simp [Reduction.view]

/-- A step of the machine is an atomic access or does nothing to the pool. -/
theorem Follows.of_machineStep {c c' : Machine S α ι} {d : Pool E α σ ι} {label : ι ⊕ ε}
    (h : Follows R c d) (hstep : machineStep S env c label = some c') :
    ∃ d', Leads (poolStep H) d d' ∧ Follows R c' d' := by
  cases label with
  | inl i =>
      obtain ⟨stage, owner, s, hmove, rfl⟩ := move_of_threadStep hstep
      exact h.of_move hmove
  | inr e =>
      cases hstep
      exact ⟨d, .refl d, h.exclusive, h.threads, R.disturbed e h.agree⟩

/-- Every run of the machine is one of the atomic programs. -/
theorem Reduction.exists_leads (R : Reduction S env H) {programs : ι → Program E α} {s : τ} {t : σ}
    (h : R.Agree none s t) {c : Machine S α ι}
    (hleads : Leads (machineStep S env) (.initial S programs s) c) :
    ∃ d, Leads (poolStep H) ⟨programs, t⟩ d ∧ Follows R c d :=
  exists_leads_of_simulation (fun _ _ _ _ hfollows hstep => hfollows.of_machineStep hstep)
    (follows_initial R programs h) hleads

end Atomicity

section Progress

variable {E : Effect} {τ σ α ι ε : Type} [DecidableEq ι] {S : Sections E τ} {env : ε → τ → τ}
  {H : Handler E σ}

/-- A section comes to its answer when nobody but the surroundings intervenes, at the
right moments. -/
inductive Finishes (S : Sections E τ) (env : ε → τ → τ) (o : E.Op) : S.Code o → τ → Prop
  | answer {code : S.Code o} {s s' : τ} {a : E.Answer o} : S.next o code s = (.inr a, s') →
      Finishes S env o code s
  | inside {code code' : S.Code o} {s s' : τ} : S.next o code s = (.inl code', s') →
      Finishes S env o code' s' → Finishes S env o code s
  | disturbed {code : S.Code o} {s : τ} (e : ε) : Finishes S env o code (env e s) →
      Finishes S env o code s

def Stage.Ended : Stage S α → Prop
  | .outside (.access _ _) => False
  | .outside _ => True
  | .inside _ _ _ => False
  | .closing _ => False

/-- A thread in a section gets to the end of it. -/
theorem exists_leads_outside {o : E.Op} {code : S.Code o} {k : E.Answer o → Program E α}
    {c : Machine S α ι} {i : ι} (hstage : c.stages i = .inside o code k)
    (h : Finishes S env o code c.shared) :
    ∃ a s, Leads (machineStep S env) c (c.move i (.outside (k a)) none s) := by
  generalize hs : c.shared = s₀ at h
  induction h generalizing c with
  | @answer code s s' a hnext =>
      refine ⟨a, s', .head (l := .inl i) (t := c.move i (.closing (k a)) c.owner s') ?_ ?_⟩
      · simp only [machineStep, threadStep, hstage, hs, hnext]
      · apply Leads.single (l := .inl i)
        simp [machineStep, threadStep, Machine.move]
  | @inside code code' s s' hnext _ ih =>
      obtain ⟨a, t, hleads⟩ := ih (c := c.move i (.inside o code' k) c.owner s')
        (by simp [Machine.move]) rfl
      refine ⟨a, t, .head (l := .inl i) (t := c.move i (.inside o code' k) c.owner s') ?_ ?_⟩
      · simp only [machineStep, threadStep, hstage, hs, hnext]
      · simpa [Machine.move] using hleads
  | @disturbed code s e _ ih =>
      obtain ⟨a, t, hleads⟩ := ih (c := { c with shared := env e s }) hstage rfl
      refine ⟨a, t, .head (l := .inr e) (t := { c with shared := env e s }) ?_ hleads⟩
      rw [← hs]
      rfl

variable {R : Reduction S env H} {c : Machine S α ι}
  (hfinishes : ∀ {o : E.Op} {code : S.Code o} {s : τ} {t : σ}, R.Agree (some ⟨o, code⟩) s t →
    Finishes S env o code s)

omit [DecidableEq ι] in
theorem Follows.agree_inside {d : Pool E α σ ι} (h : Follows R c d) {i : ι} {o : E.Op}
    {code : S.Code o} {k : E.Answer o → Program E α} (hstage : c.stages i = .inside o code k) :
    R.Agree (some ⟨o, code⟩) c.shared d.shared := by
  have hagree := h.agree
  rw [h.exclusive.position_eq (i := i) (by rw [hstage]; trivial), hstage] at hagree
  exact hagree

theorem exists_follows_of_leads {c' : Machine S α ι} (h : ∃ d, Follows R c d)
    (hleads : Leads (machineStep S env) c c') : ∃ d, Follows R c' d := by
  have hstep : ∀ (c : Machine S α ι) label c', (∃ d, Follows R c d) →
      machineStep S env c label = some c' → ∃ d, Follows R c' d := by
    rintro c label c' ⟨d, hd⟩ hstep
    obtain ⟨d', -, hd'⟩ := hd.of_machineStep hstep
    exact ⟨d', hd'⟩
  exact hleads.invariant hstep h

include hfinishes

/-- With the lock free, a thread can be run to its end, the others waiting. -/
theorem exists_leads_ended_of_free (h : ∃ d, Follows R c d) {i : ι} {p : Program E α}
    (hfree : c.owner = none) (hstage : c.stages i = .outside p) :
    ∃ stage s, stage.Ended ∧ Leads (machineStep S env) c (c.move i stage none s) := by
  induction p generalizing c with
  | done a =>
      refine ⟨.outside (.done a), c.shared, trivial, ?_⟩
      rw [Machine.move, ← hstage, Function.update_eq_self, ← hfree]
      exact .refl c
  | panic message =>
      refine ⟨.outside (.panic message), c.shared, trivial, ?_⟩
      rw [Machine.move, ← hstage, Function.update_eq_self, ← hfree]
      exact .refl c
  | access o k ih =>
      -- once the access is over the induction takes the thread to its end
      have hover : ∀ a s, Leads (machineStep S env) c (c.move i (.outside (k a)) none s) →
          ∃ stage s, stage.Ended ∧ Leads (machineStep S env) c (c.move i stage none s) := by
        intro a s hleads
        obtain ⟨stage, t, hended, hrest⟩ := ih a (c := c.move i (.outside (k a)) none s)
          (exists_follows_of_leads h hleads) rfl (by simp [Machine.move])
        refine ⟨stage, t, hended, hleads.trans ?_⟩
        simpa [Machine.move] using hrest
      cases hstart : S.start o with
      | none =>
          apply hover (S.direct o c.shared).1 (S.direct o c.shared).2
          apply Leads.single (l := .inl i)
          simp only [machineStep, threadStep, hstage, hstart, hfree]
      | some code =>
          have henter : machineStep S env c (.inl i) =
              some (c.move i (.inside o code k) (some i) c.shared) := by
            simp only [machineStep, threadStep, hstage, hstart, hfree]
          have hinside : (c.move i (.inside o code k) (some i) c.shared).stages i =
              .inside o code k := Function.update_self _ _ _
          obtain ⟨d, hd⟩ := exists_follows_of_leads h (.single henter)
          obtain ⟨a, s, hleads⟩ := exists_leads_outside hinside (hfinishes (hd.agree_inside hinside))
          refine hover a s (.head henter ?_)
          simpa [Machine.move] using hleads

/-- The thread with the lock can be brought out of its section. -/
theorem exists_leads_free (h : ∃ d, Follows R c d) :
    ∃ d, Leads (machineStep S env) c d ∧ d.owner = none := by
  obtain ⟨d, hd⟩ := h
  cases howner : c.owner with
  | none => exact ⟨c, .refl c, howner⟩
  | some i =>
      have hlock := (hd.exclusive i).mp howner
      cases hstage : c.stages i with
      | outside p =>
          rw [hstage] at hlock
          exact hlock.elim
      | inside o code k =>
          obtain ⟨a, s, hleads⟩ := exists_leads_outside hstage (hfinishes (hd.agree_inside hstage))
          exact ⟨_, hleads, rfl⟩
      | closing p =>
          refine ⟨c.move i (.outside p) none c.shared, .single (l := .inl i) ?_, rfl⟩
          simp only [machineStep, threadStep, hstage]

theorem exists_leads_ended_of_mem (hfree : c.owner = none) (h : ∃ d, Follows R c d)
    (l : List ι) (hl : l.Nodup) :
    ∃ d, Leads (machineStep S env) c d ∧ d.owner = none ∧ (∀ i ∈ l, (d.stages i).Ended) ∧
      ∀ i ∉ l, d.stages i = c.stages i := by
  induction l with
  | nil => exact ⟨c, .refl c, hfree, by simp, fun i _ => rfl⟩
  | cons i l ih =>
      obtain ⟨hnot, hl⟩ := List.nodup_cons.mp hl
      obtain ⟨d, hleads, hd, hended, hkeep⟩ := ih hl
      have hlock : ¬ (c.stages i).HasLock := by
        obtain ⟨e, he⟩ := h
        exact mt (he.exclusive i).mpr (by simp [hfree])
      cases hstage : c.stages i with
      | outside p =>
          obtain ⟨stage, s, hstop, hrest⟩ := exists_leads_ended_of_free hfinishes
            (exists_follows_of_leads h hleads) hd ((hkeep i hnot).trans hstage)
          refine ⟨d.move i stage none s, hleads.trans hrest, rfl, ?_, ?_⟩
          · intro j hj
            rcases eq_or_ne j i with rfl | hne
            · simpa [Machine.move] using hstop
            · simpa [Machine.move, hne] using hended j ((List.mem_cons.mp hj).resolve_left hne)
          · intro j hj
            rw [List.mem_cons, not_or] at hj
            simpa [Machine.move, hj.1] using hkeep j hj.2
      | inside o code k =>
          rw [hstage] at hlock
          exact absurd trivial hlock
      | closing p =>
          rw [hstage] at hlock
          exact absurd trivial hlock

/-- All threads can be brought to their ends. -/
theorem exists_leads_ended [Fintype ι] (h : ∃ d, Follows R c d) :
    ∃ d, Leads (machineStep S env) c d ∧ ∀ i, (d.stages i).Ended := by
  obtain ⟨d, hleads, hfree⟩ := exists_leads_free hfinishes h
  obtain ⟨e, hrest, -, hended, -⟩ := exists_leads_ended_of_mem hfinishes hfree
    (exists_follows_of_leads h hleads) Finset.univ.toList (Finset.nodup_toList _)
  exact ⟨e, hleads.trans hrest, fun i => hended i (by simp)⟩

end Progress

section Programs

variable {E F : Effect} {τ ε : Type}

/-- Sections written as programs that do not panic, one access of theirs at a time. -/
def programSections (K : Handler F τ)
    (start : (o : E.Op) → Option {p : Program F (E.Answer o) // p.NeverPanics})
    (direct : Handler E τ) : Sections E τ where
  Code o := {p : Program F (E.Answer o) // p.NeverPanics}
  start := start
  next _ code s :=
    match code with
    | ⟨.done a, _⟩ => (.inr a, s)
    | ⟨.panic _, h⟩ => h.elim
    | ⟨.access o k, h⟩ => (.inl ⟨k (K o s).1, h _⟩, (K o s).2)
  direct := direct

theorem finishes_programSections {K : Handler F τ}
    {start : (o : E.Op) → Option {p : Program F (E.Answer o) // p.NeverPanics}}
    {direct : Handler E τ} (env : ε → τ → τ) (o : E.Op) (p : Program F (E.Answer o))
    (hp : p.NeverPanics) (s : τ) :
    Finishes (programSections K start direct) env o ⟨p, hp⟩ s := by
  induction p generalizing s with
  | done a => exact .answer rfl
  | panic message => exact hp.elim
  | access o' k ih => exact .inside rfl (ih _ (hp _) _)

end Programs

end RiscvHypervisor.LockedSections
