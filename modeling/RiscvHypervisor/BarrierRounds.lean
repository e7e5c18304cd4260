import RiscvHypervisor.Barrier

/-!
Invariants of the barrier.  The spinlock excludes its two sections in every
run.  While no reset of `tokens` discards a decrement, the harts go through
rounds: in round `r` every hart has decremented `tokens` `r` or `r + 1` times,
and the round ends only after all of them have.
-/

namespace RiscvHypervisor.Barrier

open RiscvHypervisor.TransitionSystem

variable {n : Nat}

/-- The hart is inside a section protected by the lock. -/
def Pc.holds : Pc → Bool
  | .loadCount _ | .storeCount _ _ | .release _ => true
  | _ => false

/-- The lock word tells whether a hart is inside, and at most one is. -/
structure LockInv (s : State n) : Prop where
  unique : ∀ i j, (s.harts i).pc.holds → (s.harts j).pc.holds → i = j
  locked : s.locked ≠ 0 ↔ ∃ i, (s.harts i).pc.holds

theorem Move.lock_cases {t p l t' p' l' : Int} {h h' : Hart}
    (hmove : Move n t p l h t' p' l' h') :
    (h.pc.holds = h'.pc.holds ∧ (l ≠ 0 ↔ l' ≠ 0)) ∨
      (h'.pc.holds ∧ l = 0 ∧ l' ≠ 0) ∨
      (h.pc.holds ∧ ¬ h'.pc.holds ∧ l' = 0) := by
  cases hmove <;> simp_all [Pc.holds]

theorem lockInv_init {s : State n} (h : Init s) : LockInv s := by
  obtain ⟨passed, rfl⟩ := h
  constructor <;> simp [initBarrier, Pc.holds]

theorem lockInv_step {s : State n} (hs : LockInv s) (i : Fin n) :
    LockInv (step s i) := by
  obtain ⟨t, p, l, h, hmove, heq⟩ := exists_move s i
  rw [heq]
  rcases hmove.lock_cases with ⟨hholds, hl⟩ | ⟨hin, hfree, hl⟩ | ⟨hin, hout, hl⟩
  · have hsame : ∀ j, (Function.update s.harts i h j).pc.holds = (s.harts j).pc.holds := by
      intro j
      rcases eq_or_ne j i with rfl | hj
      · simp [hholds]
      · rw [Function.update_of_ne hj]
    constructor
    · intro j k hj hk
      simp only [hsame] at hj hk
      exact hs.unique j k hj hk
    · simp only [hsame, ← hl]
      exact hs.locked
  · have hnone : ∀ j, ¬ (s.harts j).pc.holds := by
      intro j hj
      exact hs.locked.mpr ⟨j, hj⟩ hfree
    have honly : ∀ j, (Function.update s.harts i h j).pc.holds → j = i := by
      intro j hj
      by_contra hne
      rw [Function.update_of_ne hne] at hj
      exact hnone j hj
    constructor
    · intro j k hj hk
      rw [honly j hj, honly k hk]
    · exact iff_of_true hl ⟨i, by simpa using hin⟩
  · have hnone : ∀ j, ¬ (Function.update s.harts i h j).pc.holds := by
      intro j
      rcases eq_or_ne j i with rfl | hj
      · simpa using hout
      · rw [Function.update_of_ne hj]
        intro hholds
        exact hj (hs.unique j i hholds hin)
    constructor
    · intro j k hj
      exact absurd hj (hnone j)
    · refine iff_of_false (by simp [hl]) ?_
      rintro ⟨j, hj⟩
      exact hnone j hj

/-- The hart has decremented `tokens` in its current call. -/
def Pc.hasTaken : Pc → Bool
  | .idle | .acquireLoad .take | .acquireSwap .take | .loadCount .take
  | .storeCount .take _ => false
  | _ => true

/-- The hart has found `tokens` at zero and has not reset it yet. -/
def Pc.resets : Pc → Bool
  | .setPassed | .resetTokens => true
  | _ => false

/-- The number of times the hart has decremented `tokens`. -/
def Hart.taken (h : Hart) : Nat := h.returned + if h.pc.hasTaken then 1 else 0

/-- Where a hart waits in the round it has decremented `tokens` for.  A hart
in the last-hart branch has seen all tokens gone. -/
def WaitsAt (tokens : Int) : Pc → Prop
  | .release .take | .lastHart | .spinTokens => True
  | .setPassed | .resetTokens => tokens = 0
  | _ => False

/-- The state of the barrier in round `r`. -/
structure RoundInv (r : Nat) (s : State n) : Prop where
  lock : LockInv s
  calls : ∀ i, (s.harts i).started =
    (s.harts i).returned + if (s.harts i).pc = .idle then 0 else 1
  round : ∀ i, (s.harts i).taken = r ∨ (s.harts i).taken = r + 1
  tokens : s.tokens + count (fun h => h.taken = r + 1) s.harts = n
  waits : ∀ i, (s.harts i).taken = r + 1 → WaitsAt s.tokens (s.harts i).pc
  loaded : ∀ i v, (s.harts i).pc = .storeCount .take v → v = s.tokens

theorem roundInv_init {s : State n} (h : Init s) : RoundInv 0 s := by
  have hlock := lockInv_init h
  obtain ⟨passed, rfl⟩ := h
  refine ⟨hlock, ?_, ?_, ?_, ?_, ?_⟩
  · simp [initBarrier]
  · simp [initBarrier, Hart.taken, Pc.hasTaken]
  · have hzero : count (fun h : Hart => h.taken = 0 + 1) (initBarrier n passed).harts = 0 := by
      rw [count_eq_zero_iff]
      simp [initBarrier, Hart.taken, Pc.hasTaken]
    rw [hzero]
    simp [initBarrier, initial]
  · simp [initBarrier, Hart.taken, Pc.hasTaken]
  · simp [initBarrier]

theorem hasTaken_of_waitsAt {t : Int} {pc : Pc} (h : WaitsAt t pc) : pc.hasTaken := by
  unfold WaitsAt at h
  split at h <;> first | rfl | exact h.elim

theorem taken_of_waitsAt {t : Int} {h : Hart} (hw : WaitsAt t h.pc) :
    h.taken = h.returned + 1 := by
  simp [Hart.taken, hasTaken_of_waitsAt hw]

theorem returned_le_taken (h : Hart) : h.returned ≤ h.taken := Nat.le_add_right _ _

theorem taken_le_of_calls {h : Hart}
    (hcalls : h.started = h.returned + if h.pc = .idle then 0 else 1) :
    h.taken ≤ h.started := by
  rw [hcalls, Hart.taken]
  rcases eq_or_ne h.pc .idle with hidle | hidle
  · simp [hidle, Pc.hasTaken]
  · rw [if_neg hidle]
    split <;> omega

namespace RoundInv

variable {r : Nat} {s : State n}

theorem taken_of_tokens_zero (hs : RoundInv r s) (h : s.tokens = 0) (i : Fin n) :
    (s.harts i).taken = r + 1 := by
  have hcount : count (fun h : Hart => h.taken = r + 1) s.harts = Fintype.card (Fin n) := by
    have := hs.tokens
    simp only [Fintype.card_fin]
    omega
  exact (count_eq_card_iff _ _).mp hcount i

theorem taken_of_tokens_initial (hs : RoundInv r s) (h : s.tokens = initial n) (i : Fin n) :
    (s.harts i).taken = r := by
  have hcount : count (fun h : Hart => h.taken = r + 1) s.harts = 0 := by
    have := hs.tokens
    simp only [initial] at h
    omega
  have hne := (count_eq_zero_iff _ _).mp hcount i
  rcases hs.round i with hr | hr
  · exact hr
  · exact absurd hr hne

/-- A hart that does not wait in the current round has not decremented
`tokens` in it. -/
theorem taken_of_not_waits (hs : RoundInv r s) {i : Fin n}
    (h : ¬ WaitsAt s.tokens (s.harts i).pc) : (s.harts i).taken = r := by
  rcases hs.round i with hr | hr
  · exact hr
  · exact absurd (hs.waits i hr) h

theorem returned_le (hs : RoundInv r s) (i : Fin n) : (s.harts i).returned ≤ r := by
  by_cases hw : WaitsAt s.tokens (s.harts i).pc
  · have htaken := taken_of_waitsAt hw
    rcases hs.round i with hr | hr <;> omega
  · have hle := returned_le_taken (s.harts i)
    rw [hs.taken_of_not_waits hw] at hle
    exact hle

theorem le_started (hs : RoundInv r s) (i : Fin n) : r ≤ (s.harts i).started := by
  have hle := taken_le_of_calls (hs.calls i)
  rcases hs.round i with hr | hr <;> omega

theorem separated (hs : RoundInv r s) : Separated s :=
  fun i j => (hs.returned_le i).trans (hs.le_started j)

end RoundInv

/-- The guard on a step that resets `tokens`: it discards no decrement. -/
def KeepsDecrements (s : State n) (i : Fin n) : Prop :=
  (s.harts i).pc = .resetTokens → s.tokens = 0 ∨ s.tokens = initial n

/-- Away from the two writes of `tokens`, a step changes neither `tokens` nor
the number of decrements of the hart. -/
theorem Move.taken_eq {t p l t' p' l' : Int} {h h' : Hart}
    (hmove : Move n t p l h t' p' l' h') (hstore : ∀ v, h.pc ≠ .storeCount .take v)
    (hreset : h.pc ≠ .resetTokens) : h'.taken = h.taken ∧ t' = t := by
  cases hmove <;> simp_all [Hart.taken, Pc.hasTaken] <;>
    rename_i sec _ _ _ <;> cases sec <;> rfl

theorem Move.calls_eq {t p l t' p' l' : Int} {h h' : Hart}
    (hmove : Move n t p l h t' p' l' h')
    (hcalls : h.started = h.returned + if h.pc = .idle then 0 else 1) :
    h'.started = h'.returned + if h'.pc = .idle then 0 else 1 := by
  cases hmove <;> simp_all

theorem Move.waitsAt {t p l t' p' l' : Int} {h h' : Hart}
    (hmove : Move n t p l h t' p' l' h') (hreset : h.pc ≠ .resetTokens)
    (hseen : t ≠ initial n) (hwait : WaitsAt t h.pc) : WaitsAt t' h'.pc := by
  cases hmove <;> simp_all [WaitsAt]

theorem Move.loaded {t p l t' p' l' : Int} {h h' : Hart}
    (hmove : Move n t p l h t' p' l' h') {v : Int}
    (hpc : h'.pc = .storeCount .take v) : v = t ∧ t' = t := by
  cases hmove <;> simp_all

/-- A step that leaves `tokens` and the number of decrements as they were stays
in the round. -/
theorem roundInv_step_same {r : Nat} {s : State n} {i : Fin n} {p l : Int} {h : Hart}
    (hs : RoundInv r s)
    (hmove : Move n s.tokens s.passed s.locked (s.harts i) s.tokens p l h)
    (heq : step s i = ⟨s.tokens, p, l, Function.update s.harts i h⟩)
    (htaken : h.taken = (s.harts i).taken)
    (hreset : (s.harts i).pc = .resetTokens → s.tokens = initial n) :
    RoundInv r (step s i) := by
  have hlock := lockInv_step hs.lock i
  rw [heq] at hlock ⊢
  have hsame : ∀ j, (Function.update s.harts i h j).taken = (s.harts j).taken := by
    intro j
    rcases eq_or_ne j i with rfl | hj
    · simpa using htaken
    · rw [Function.update_of_ne hj]
  refine ⟨hlock, ?_, ?_, ?_, ?_, ?_⟩
  · intro j
    rcases eq_or_ne j i with rfl | hj
    · simpa using hmove.calls_eq (hs.calls j)
    · simpa [Function.update_of_ne hj] using hs.calls j
  · intro j
    simpa [hsame] using hs.round j
  · have hcount := count_update (fun h : Hart => h.taken = r + 1) s.harts i h
    simp only [htaken] at hcount
    have := hs.tokens
    simp only
    omega
  · intro j hj
    simp only [hsame] at hj
    rcases eq_or_ne j i with rfl | hne
    · have hseen : s.tokens ≠ initial n := by
        intro hinit
        have := hs.taken_of_tokens_initial hinit j
        omega
      simpa using hmove.waitsAt (fun hpc => hseen (hreset hpc)) hseen (hs.waits j hj)
    · simpa [Function.update_of_ne hne] using hs.waits j hj
  · intro j v hj
    rcases eq_or_ne j i with rfl | hne
    · simp only [Function.update_self] at hj
      exact (hmove.loaded hj).1
    · simp only [Function.update_of_ne hne] at hj
      exact hs.loaded j v hj

/-- The write of `tokens--` adds the hart to those that have decremented in
this round. -/
theorem roundInv_step_store {r : Nat} {s : State n} {i : Fin n} {v : Int}
    (hs : RoundInv r s) (hpc : (s.harts i).pc = .storeCount .take v) :
    RoundInv r (step s i) := by
  have hlock := lockInv_step hs.lock i
  have hv := hs.loaded i v hpc
  have hold : (s.harts i).taken = r :=
    hs.taken_of_not_waits (by simp [hpc, WaitsAt])
  have hcalls := hs.calls i
  have hheld : (s.harts i).pc.holds := by simp [hpc, Pc.holds]
  rcases hi : s.harts i with ⟨pc, k, m⟩
  rw [hi] at hpc hold hcalls
  simp only at hpc
  subst hpc
  have heq : step s i =
      ⟨s.tokens - 1, s.passed, s.locked, Function.update s.harts i ⟨.release .take, k, m⟩⟩ := by
    simp [step, State.goto, hi, hv]
  have hnew : Hart.taken ⟨.release .take, k, m⟩ = r + 1 := by
    simp only [Hart.taken, Pc.hasTaken, Bool.false_eq_true, if_false, if_true] at hold ⊢
    omega
  rw [heq] at hlock ⊢
  refine ⟨hlock, ?_, ?_, ?_, ?_, ?_⟩
  · intro j
    rcases eq_or_ne j i with rfl | hj
    · simpa using hcalls
    · simpa [Function.update_of_ne hj] using hs.calls j
  · intro j
    rcases eq_or_ne j i with rfl | hj
    · right
      simpa using hnew
    · simpa [Function.update_of_ne hj] using hs.round j
  · have hcount := count_update (fun h : Hart => h.taken = r + 1) s.harts i
      ⟨.release .take, k, m⟩
    rw [hi, if_pos hnew, if_neg (by omega)] at hcount
    have := hs.tokens
    simp only
    omega
  · intro j hj
    rcases eq_or_ne j i with rfl | hne
    · simp [WaitsAt]
    · simp only [Function.update_of_ne hne] at hj ⊢
      -- a hart in the last-hart branch would mean that hart `i` has decremented too
      have hwait := hs.waits j hj
      have hpos : s.tokens ≠ 0 := by
        intro hzero
        have := hs.taken_of_tokens_zero hzero i
        rw [hi] at this
        omega
      unfold WaitsAt at hwait ⊢
      split at hwait <;> simp_all
  · intro j w hj
    rcases eq_or_ne j i with rfl | hne
    · simp at hj
    · simp only [Function.update_of_ne hne] at hj
      exact absurd (hs.lock.unique j i (by simp [hj, Pc.holds]) hheld) hne

/-- The reset after the last decrement starts the next round. -/
theorem roundInv_step_reset {r : Nat} {s : State n} {i : Fin n} (hs : RoundInv r s)
    (hpc : (s.harts i).pc = .resetTokens) (hzero : s.tokens = 0) :
    RoundInv (r + 1) (step s i) := by
  have hlock := lockInv_step hs.lock i
  have hall := hs.taken_of_tokens_zero hzero
  have hcalls := hs.calls
  have hold := hall i
  rcases hi : s.harts i with ⟨pc, k, m⟩
  rw [hi] at hpc hold
  simp only at hpc
  subst hpc
  have heq : step s i =
      ⟨initial n, s.passed, s.locked, Function.update s.harts i ⟨.spinPassed, k, m⟩⟩ := by
    simp [step, State.goto, hi]
  have hround : ∀ j, (Function.update s.harts i ⟨.spinPassed, k, m⟩ j).taken = r + 1 := by
    intro j
    rcases eq_or_ne j i with rfl | hj
    · simpa [Hart.taken, Pc.hasTaken] using hold
    · rw [Function.update_of_ne hj]
      exact hall j
  rw [heq] at hlock ⊢
  refine ⟨hlock, ?_, fun j => .inl (hround j), ?_, ?_, ?_⟩
  · intro j
    rcases eq_or_ne j i with rfl | hj
    · simpa [hi] using hcalls j
    · simpa [Function.update_of_ne hj] using hcalls j
  · have hcount : count (fun h : Hart => h.taken = r + 1 + 1)
        (Function.update s.harts i ⟨.spinPassed, k, m⟩) = 0 := by
      rw [count_eq_zero_iff]
      intro j
      rw [hround j]
      omega
    rw [hcount]
    simp [initial]
  · intro j hj
    simp only [hround j] at hj
    omega
  · intro j v hj
    rcases eq_or_ne j i with rfl | hne
    · simp at hj
    · simp only [Function.update_of_ne hne] at hj
      have := hs.waits j (hall j)
      simp [hj, WaitsAt] at this

theorem roundInv_step_of_ne_reset {r : Nat} {s : State n} {i : Fin n} (hs : RoundInv r s)
    (hreset : (s.harts i).pc ≠ .resetTokens) : RoundInv r (step s i) := by
  by_cases hstore : ∃ v, (s.harts i).pc = .storeCount .take v
  · obtain ⟨v, hv⟩ := hstore
    exact roundInv_step_store hs hv
  · obtain ⟨t, p, l, h, hmove, heq⟩ := exists_move s i
    obtain ⟨htaken, rfl⟩ := hmove.taken_eq (fun v hv => hstore ⟨v, hv⟩) hreset
    exact roundInv_step_same hs hmove heq htaken fun h => absurd h hreset

theorem roundInv_step {r : Nat} {s : State n} {i : Fin n} (hs : RoundInv r s)
    (hguard : KeepsDecrements s i) : ∃ r', RoundInv r' (step s i) := by
  obtain ⟨t, p, l, h, hmove, heq⟩ := exists_move s i
  rcases eq_or_ne ((s.harts i).pc) .resetTokens with hreset | hreset
  · rcases hguard hreset with hzero | hinit
    · exact ⟨r + 1, roundInv_step_reset hs hreset hzero⟩
    · refine ⟨r, roundInv_step_same (p := p) (l := l) (h := h) hs ?_ ?_ ?_ fun _ => hinit⟩
      all_goals
        rcases hi : s.harts i with ⟨pc, k, m⟩
        rw [hi] at hmove hreset
        simp only at hreset
        subst hreset
        cases hmove
      · rw [hinit]
        exact .resetTokens
      · rw [heq, hinit]
      · rfl
  · exact ⟨r, roundInv_step_of_ne_reset hs hreset⟩

/-- The barrier is in some round. -/
def InRound (s : State n) : Prop := ∃ r, RoundInv r s

theorem inRound_of_reachable {s : State n} (h : Reachable next KeepsDecrements Init s) :
    InRound s := by
  refine h.invariant _ (fun s hs => ⟨0, roundInv_init hs⟩) ?_
  rintro s i t ⟨r, hr⟩ hguard ht
  cases Option.some.inj ht
  exact roundInv_step hr hguard

theorem Move.started_le {t p l t' p' l' : Int} {h h' : Hart} {r : Nat}
    (hmove : Move n t p l h t' p' l' h')
    (hcalls : h.started = h.returned + if h.pc = .idle then 0 else 1)
    (hlimit : h.pc = .idle → h.returned < r) (hle : h.started ≤ r) : h'.started ≤ r := by
  cases hmove with
  | call =>
      simp only [if_pos] at hcalls
      have hreturned := hlimit rfl
      simp only at hreturned ⊢
      omega
  | _ => exact hle

/-- Where every hart calls `wait_barrier` at most once, a second reset finds `tokens`
as the first one left it. -/
theorem RoundInv.keepsDecrements {r : Nat} {s : State n} (hs : RoundInv r s)
    (honce : ∀ i, (s.harts i).started ≤ 1) (i : Fin n) : KeepsDecrements s i := by
  intro hpc
  rcases hs.round i with htaken | htaken
  · right
    have hr : 1 ≤ r := by
      rw [← htaken, Hart.taken, hpc]
      exact Nat.le_add_left 1 _
    have hcount : count (fun h : Hart => h.taken = r + 1) s.harts = 0 := by
      rw [count_eq_zero_iff]
      intro j
      have hle := (taken_le_of_calls (hs.calls j)).trans (honce j)
      omega
    have htokens := hs.tokens
    rw [hcount] at htokens
    rw [initial]
    omega
  · left
    have hwaits := hs.waits i htaken
    rwa [hpc] at hwaits

/-- A barrier that every hart uses once stays in rounds, whatever their number. -/
theorem inRound_of_callLimit {s : State n} (h : Reachable next (CallLimit 1) Init s) :
    InRound s := by
  have hinv : InRound s ∧ ∀ i, (s.harts i).started ≤ 1 := by
    refine h.invariant (fun s => InRound s ∧ ∀ i, (s.harts i).started ≤ 1) ?_ ?_
    · intro s hs
      refine ⟨⟨0, roundInv_init hs⟩, ?_⟩
      obtain ⟨passed, rfl⟩ := hs
      simp [initBarrier]
    · rintro s i t ⟨⟨r, hr⟩, honce⟩ hlimit ht
      cases Option.some.inj ht
      refine ⟨roundInv_step hr (hr.keepsDecrements honce i), ?_⟩
      intro j
      obtain ⟨t, p, l, h, hmove, heq⟩ := exists_move s i
      rw [heq]
      rcases eq_or_ne j i with rfl | hj
      · simpa using hmove.started_le (hr.calls j) hlimit (honce j)
      · simpa [Function.update_of_ne hj] using honce j
  exact hinv.1

end RiscvHypervisor.Barrier
