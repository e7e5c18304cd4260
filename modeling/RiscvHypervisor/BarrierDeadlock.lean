import RiscvHypervisor.BarrierRounds
import RiscvHypervisor.BarrierSchedules

/-!
The barrier gets stuck in two ways: two harts take the last-hart branch of one
round, so that `passed` never reaches the count, or a hart misses the reset
because another one has already taken a token of the next round.  Runs that do
neither are never stuck.
-/

namespace RiscvHypervisor.Barrier

open RiscvHypervisor.TransitionSystem

variable {n : Nat}

/-- The hart has decremented `tokens` and waits to see it reset. -/
def Pc.awaitsReset : Pc → Bool
  | .release .take | .lastHart | .spinTokens => true
  | _ => false

/-- The hart is on the way to its `passed++`. -/
def Pc.inside : Pc → Bool
  | .release .take | .lastHart | .spinTokens | .acquireLoad .pass | .acquireSwap .pass
  | .loadCount .pass | .storeCount .pass _ => true
  | _ => false

theorem inside_of_awaitsReset {pc : Pc} (h : pc.awaitsReset) : pc.inside := by
  unfold Pc.awaitsReset at h
  split at h <;> simp_all [Pc.inside]

/-- The guard on the last-hart test: it succeeds only while no other hart is on
its way to reset `tokens`. -/
def SingleReset (s : State n) (i : Fin n) : Prop :=
  (s.harts i).pc = .lastHart → s.tokens = 0 → ∀ j, ¬ (s.harts j).pc.resets

/-- The guard on the first decrement of a round: every hart has seen the reset
of the round before. -/
def ResetSeen (s : State n) (i : Fin n) : Prop :=
  ∀ v, (s.harts i).pc = .storeCount .take v → s.tokens = initial n →
    ∀ j, ¬ (s.harts j).pc.awaitsReset

/-- The condition on a run of at most `r` calls a hart. -/
def OrderlyStep (r : Nat) (s : State n) (i : Fin n) : Prop :=
  CallLimit r s i ∧ SingleReset s i ∧ ResetSeen s i

instance (s : State n) (i : Fin n) : Decidable (SingleReset s i) :=
  inferInstanceAs (Decidable (_ → _ → ∀ j, ¬ (s.harts j).pc.resets))

/-- The hart is about to write `tokens`. -/
def Pc.takes : Pc → Bool
  | .storeCount .take _ => true
  | _ => false

theorem takes_iff {pc : Pc} : pc.takes ↔ ∃ v, pc = .storeCount .take v := by
  unfold Pc.takes
  split
  · simp
  · rename_i hne
    simpa using hne

theorem resetSeen_iff {s : State n} {i : Fin n} : ResetSeen s i ↔
    ((s.harts i).pc.takes → s.tokens = initial n → ∀ j, ¬ (s.harts j).pc.awaitsReset) := by
  rw [takes_iff, ResetSeen, forall_exists_index]

instance (s : State n) (i : Fin n) : Decidable (ResetSeen s i) :=
  decidable_of_iff' _ resetSeen_iff

instance (r : Nat) (s : State n) (i : Fin n) : Decidable (OrderlyStep r s i) :=
  inferInstanceAs (Decidable ((_ → _) ∧ _ ∧ _))

/-- The hart still has to count itself in `passed` for round `k`. -/
def NotPassed (k : Nat) (h : Hart) : Prop := h.taken = k ∧ h.pc.inside

instance (k : Nat) : DecidablePred (NotPassed k) :=
  fun _ => inferInstanceAs (Decidable (_ ∧ _))

/-- What holds in round `k` of an orderly run of at most `r` calls a hart. -/
structure LiveInv (r k : Nat) (s : State n) : Prop where
  round : RoundInv k s
  limit : ∀ i, (s.harts i).started ≤ r
  fresh : ∀ i, (s.harts i).pc.resets → s.tokens = 0
  single : ∀ i j, (s.harts i).pc.resets → (s.harts j).pc.resets → i = j
  seen : s.tokens ≠ initial n → ∀ i, (s.harts i).pc.awaitsReset → (s.harts i).taken = k + 1
  last : s.tokens = 0 →
    ∃ i, (s.harts i).pc.resets ∨ (s.harts i).pc = .release .take ∨ (s.harts i).pc = .lastHart
  passed : ∀ i, (s.harts i).pc = .spinPassed → s.passed + count (NotPassed k) s.harts = n
  reset : ∀ i, (s.harts i).pc = .resetTokens → s.passed = 1
  loaded : ∀ i v, (s.harts i).pc = .storeCount .pass v → v = s.passed

theorem liveInv_init {r : Nat} {s : State n} (hn : 0 < n) (h : Init s) : LiveInv r 0 s := by
  have hround := roundInv_init h
  obtain ⟨passed, rfl⟩ := h
  refine ⟨hround, ?_, ?_, ?_, ?_, ?_, ?_, ?_, ?_⟩
  · simp [initBarrier]
  · simp [initBarrier, Pc.resets]
  · simp [initBarrier, Pc.resets]
  · simp [initBarrier]
  · intro hzero
    simp only [initBarrier, initial] at hzero
    omega
  all_goals simp [initBarrier]

/-! What a move does to the parts of the invariant. -/

section Moves

variable {t p l t' p' l' : Int} {h h' : Hart}

theorem Move.taken_store {v : Int} (hmove : Move n t p l h t' p' l' h')
    (hpc : h.pc = .storeCount .take v) : h'.taken = h.taken + 1 := by
  cases hmove <;> simp_all [Hart.taken, Pc.hasTaken]

theorem Move.resets_cases (hmove : Move n t p l h t' p' l' h') (hreset : h'.pc.resets) :
    (h.pc.resets ∨ (h.pc = .lastHart ∧ t = 0)) ∧ t' = t := by
  cases hmove <;> simp_all [Pc.resets]

theorem Move.awaitsReset_cases (hmove : Move n t p l h t' p' l' h')
    (hstore : ∀ v, h.pc ≠ .storeCount .take v) (hwait : h'.pc.awaitsReset) :
    h.pc.awaitsReset := by
  cases hmove <;> simp_all [Pc.awaitsReset]

theorem Move.last_of_last (hmove : Move n t p l h t' p' l' h') (hzero : t = 0)
    (hreset : h.pc ≠ .resetTokens)
    (hlast : h.pc.resets ∨ h.pc = .release .take ∨ h.pc = .lastHart) :
    h'.pc.resets ∨ h'.pc = .release .take ∨ h'.pc = .lastHart := by
  cases hmove <;> simp_all [Pc.resets]

theorem Move.spinPassed_of (hmove : Move n t p l h t' p' l' h') (hreset : h.pc ≠ .resetTokens)
    (hspin : h'.pc = .spinPassed) : h.pc = .spinPassed := by
  cases hmove <;> simp_all

/-- A hart leaves the inside of the barrier exactly when it counts itself. -/
theorem Move.passed_add (hmove : Move n t p l h t' p' l' h')
    (hstore : ∀ v, h.pc ≠ .storeCount .take v) (hreset : ¬ h.pc.resets) (hpos : t ≠ 0)
    (hloaded : ∀ v, h.pc = .storeCount .pass v → v = p) :
    p' + (if h'.pc.inside then 1 else 0) = p + if h.pc.inside then 1 else 0 := by
  cases hmove <;> simp_all [Pc.inside, Pc.resets] <;>
    rename_i sec _ _ _ <;> cases sec <;> rfl

theorem Move.loaded_pass (hmove : Move n t p l h t' p' l' h') {v : Int}
    (hpc : h'.pc = .storeCount .pass v) : v = p' := by
  cases hmove <;> simp_all

theorem Move.reset_passed (hmove : Move n t p l h t' p' l' h') (hpc : h'.pc = .resetTokens) :
    p' = 1 := by
  cases hmove <;> simp_all

theorem Move.passed_eq (hmove : Move n t p l h t' p' l' h')
    (hstore : ∀ v, h.pc ≠ .storeCount .pass v) (hset : h.pc ≠ .setPassed) : p' = p := by
  cases hmove <;> simp_all

end Moves

/-- The reset opens the next round, with every other hart inside. -/
theorem liveInv_step_reset {r k : Nat} {s : State n} {i : Fin n} (hs : LiveInv r k s)
    (hpc : (s.harts i).pc = .resetTokens) : LiveInv r (k + 1) (step s i) := by
  have hzero := hs.fresh i (by simp [hpc, Pc.resets])
  have hround := roundInv_step_reset hs.round hpc hzero
  have hpassed := hs.reset i hpc
  have htaken := hs.round.taken_of_tokens_zero hzero
  have hwait : ∀ j, j ≠ i → (s.harts j).pc.awaitsReset := by
    intro j hj
    have hw := hs.round.waits j (htaken j)
    have hnot : ¬ (s.harts j).pc.resets :=
      fun hreset => hj (hs.single j i hreset (by simp [hpc, Pc.resets]))
    unfold WaitsAt at hw
    split at hw <;> simp_all [Pc.awaitsReset, Pc.resets]
  have hlimit := hs.limit i
  rcases hi : s.harts i with ⟨pc, a, b⟩
  rw [hi] at hpc hlimit
  simp only at hpc
  subst hpc
  have heq : step s i =
      ⟨initial n, s.passed, s.locked, Function.update s.harts i ⟨.spinPassed, a, b⟩⟩ := by
    simp [step, State.goto, hi]
  have hn : 0 < n := i.pos
  rw [heq] at hround ⊢
  have hnone : ∀ j, ¬ (Function.update s.harts i ⟨.spinPassed, a, b⟩ j).pc.resets := by
    intro j
    rcases eq_or_ne j i with rfl | hj
    · simp [Pc.resets]
    · rw [Function.update_of_ne hj]
      have hw := hwait j hj
      unfold Pc.awaitsReset at hw
      split at hw <;> simp_all [Pc.resets]
  refine ⟨hround, ?_, ?_, ?_, ?_, ?_, ?_, ?_, ?_⟩
  · intro j
    rcases eq_or_ne j i with rfl | hj
    · simpa using hlimit
    · simpa [Function.update_of_ne hj] using hs.limit j
  · exact fun j hj => absurd hj (hnone j)
  · exact fun j _ hj _ => absurd hj (hnone j)
  · exact fun hne => absurd rfl hne
  · intro hinit
    simp only [initial] at hinit
    omega
  · intro _ _
    -- all harts but `i` still have to count themselves
    have hcount := count_add_one_eq_card (NotPassed (k + 1))
      (f := Function.update s.harts i ⟨.spinPassed, a, b⟩) (i := i)
      (by simp [NotPassed, Pc.inside]) (fun j hj => by
        rw [Function.update_of_ne hj]
        exact ⟨htaken j, inside_of_awaitsReset (hwait j hj)⟩)
    rw [Fintype.card_fin] at hcount
    simp only [hpassed]
    omega
  · intro j hj
    exact absurd (by rw [hj]; rfl) (hnone j)
  · intro j v hj
    rcases eq_or_ne j i with rfl | hne
    · simp at hj
    · simp only [Function.update_of_ne hne] at hj
      have hw := hwait j hne
      simp [hj, Pc.awaitsReset] at hw

/-- While tokens are left, a move keeps the sum of `passed` and the hart's own
outstanding `passed++`. -/
theorem LiveInv.passed_share {r k : Nat} {s : State n} {i : Fin n} {t p l : Int} {h : Hart}
    (hs : LiveInv r k s)
    (hmove : Move n s.tokens s.passed s.locked (s.harts i) t p l h)
    (hpc : (s.harts i).pc ≠ .resetTokens) (hleft : s.tokens ≠ 0) :
    p + (if NotPassed k h then 1 else 0) =
      s.passed + if NotPassed k (s.harts i) then 1 else 0 := by
  have hreset : ¬ (s.harts i).pc.resets := fun hreset => hleft (hs.fresh i hreset)
  have hset : (s.harts i).pc ≠ .setPassed := fun hset => hreset (by simp [hset, Pc.resets])
  by_cases hstore : ∃ v, (s.harts i).pc = .storeCount .take v
  · obtain ⟨v, hv⟩ := hstore
    have hold : (s.harts i).taken = k :=
      hs.round.taken_of_not_waits (by simp [hv, WaitsAt])
    have hsame := hmove.passed_eq (by simp [hv]) hset
    have hnew := hmove.taken_store hv
    rw [hsame, if_neg, if_neg]
    · simp [NotPassed, hv, Pc.inside]
    · rintro ⟨htaken, -⟩
      omega
  · have hstore' : ∀ v, (s.harts i).pc ≠ .storeCount .take v := fun v hv => hstore ⟨v, hv⟩
    have hsame := (hmove.taken_eq hstore' hpc).1
    rcases hs.round.round i with htaken | htaken
    · have hadd := hmove.passed_add hstore' hreset hleft (hs.loaded i)
      simpa [NotPassed, hsame, htaken] using hadd
    · have hwait := hs.round.waits i htaken
      have hpassed := hmove.passed_eq (fun v hv => by simp [hv, WaitsAt] at hwait) hset
      simp [NotPassed, hsame, htaken, hpassed]

/-- Every other step stays in the round. -/
theorem liveInv_step_stay {r k : Nat} {s : State n} {i : Fin n} (hs : LiveInv r k s)
    (hguard : OrderlyStep r s i) (hpc : (s.harts i).pc ≠ .resetTokens)
    (hround : RoundInv k (step s i)) : LiveInv r k (step s i) := by
  obtain ⟨t, p, l, h, hmove, heq⟩ := exists_move s i
  obtain ⟨hlimit, hsingle, hseen⟩ := hguard
  rw [heq] at hround ⊢
  -- a hart outside of the current round's wait means that tokens are left
  have hpos : ∀ {j}, ¬ WaitsAt s.tokens (s.harts j).pc → s.tokens ≠ 0 :=
    fun {j} hw hzero => hw (hs.round.waits j (hs.round.taken_of_tokens_zero hzero j))
  have htokens : s.tokens = 0 → t = 0 := by
    intro hzero
    rw [← hzero]
    refine (hmove.taken_eq (fun v hv => ?_) hpc).2
    exact hpos (j := i) (by simp [hv, WaitsAt]) hzero
  refine ⟨hround, ?_, ?_, ?_, ?_, ?_, ?_, ?_, ?_⟩
  · intro j
    rcases eq_or_ne j i with rfl | hj
    · simpa using hmove.started_le (hs.round.calls j) hlimit (hs.limit j)
    · simpa [Function.update_of_ne hj] using hs.limit j
  · intro j hj
    rcases eq_or_ne j i with rfl | hne
    · simp only [Function.update_self] at hj
      rcases (hmove.resets_cases hj).1 with hbefore | ⟨-, hzero⟩
      · exact htokens (hs.fresh j hbefore)
      · exact htokens hzero
    · simp only [Function.update_of_ne hne] at hj
      exact htokens (hs.fresh j hj)
  · intro a b ha hb
    have hback : ∀ {j}, (Function.update s.harts i h j).pc.resets →
        (s.harts j).pc.resets ∨ (j = i ∧ ∀ j, ¬ (s.harts j).pc.resets) := by
      intro j hj
      rcases eq_or_ne j i with rfl | hne
      · rw [Function.update_self] at hj
        rcases (hmove.resets_cases hj).1 with hbefore | ⟨hlast, hzero⟩
        · exact .inl hbefore
        · exact .inr ⟨rfl, hsingle hlast hzero⟩
      · rw [Function.update_of_ne hne] at hj
        exact .inl hj
    rcases hback ha with ha' | ⟨rfl, hnone⟩
    · rcases hback hb with hb' | ⟨rfl, hnone⟩
      · exact hs.single a b ha' hb'
      · exact absurd ha' (hnone a)
    · rcases hback hb with hb' | ⟨rfl, -⟩
      · exact absurd hb' (hnone b)
      · rfl
  · intro hne j hj
    by_cases hstore : ∃ v, (s.harts i).pc = .storeCount .take v
    · obtain ⟨v, hv⟩ := hstore
      have hold : (s.harts i).taken = k :=
        hs.round.taken_of_not_waits (by simp [hv, WaitsAt])
      rcases eq_or_ne j i with rfl | hji
      · have hnew := hround.round j
        simp only [Function.update_self] at hj hnew ⊢
        have htake := hmove.taken_store hv
        omega
      · simp only [Function.update_of_ne hji] at hj ⊢
        rcases eq_or_ne s.tokens (initial n) with hinit | hinit
        · exact absurd hj (hseen v hv hinit j)
        · exact hs.seen hinit j hj
    · have hsame := hmove.taken_eq (fun v hv => hstore ⟨v, hv⟩) hpc
      have hinit : s.tokens ≠ initial n := by
        rw [← hsame.2]
        exact hne
      rcases eq_or_ne j i with rfl | hji
      · simp only [Function.update_self] at hj ⊢
        rw [hsame.1]
        exact hs.seen hinit j (hmove.awaitsReset_cases (fun v hv => hstore ⟨v, hv⟩) hj)
      · simp only [Function.update_of_ne hji] at hj ⊢
        exact hs.seen hinit j hj
  · intro hzero
    by_cases hstore : ∃ v, (s.harts i).pc = .storeCount .take v
    · obtain ⟨v, hv⟩ := hstore
      refine ⟨i, .inr (.inl ?_)⟩
      rcases hi : s.harts i with ⟨pc, a, b⟩
      rw [hi] at hmove hv
      simp only at hv
      subst hv
      cases hmove
      simp
    · have hsame := hmove.taken_eq (fun v hv => hstore ⟨v, hv⟩) hpc
      have hbefore : s.tokens = 0 := by
        rw [← hsame.2]
        exact hzero
      obtain ⟨j, hj⟩ := hs.last hbefore
      refine ⟨j, ?_⟩
      rcases eq_or_ne j i with rfl | hji
      · simpa using hmove.last_of_last hbefore hpc hj
      · simpa [Function.update_of_ne hji] using hj
  · intro j hj
    have hspin : ∃ j, (s.harts j).pc = .spinPassed := by
      rcases eq_or_ne j i with rfl | hji
      · simp only [Function.update_self] at hj
        exact ⟨j, hmove.spinPassed_of hpc hj⟩
      · simp only [Function.update_of_ne hji] at hj
        exact ⟨j, hj⟩
    obtain ⟨j, hj⟩ := hspin
    have hsum := hs.passed j hj
    have hleft : s.tokens ≠ 0 := hpos (j := j) (by simp [hj, WaitsAt])
    have hcount := count_update (NotPassed k) s.harts i h
    have hshare := hs.passed_share hmove hpc hleft
    simp only
    split at hcount <;> split at hcount <;> simp_all <;> omega
  · intro j hj
    rcases eq_or_ne j i with rfl | hji
    · simp only [Function.update_self] at hj
      exact hmove.reset_passed hj
    · simp only [Function.update_of_ne hji] at hj
      have hzero := hs.fresh j (by simp [hj, Pc.resets])
      rw [← hs.reset j hj]
      refine hmove.passed_eq (fun v hv => ?_) (fun hset => ?_)
      · exact hpos (j := i) (by simp [hv, WaitsAt]) hzero
      · exact hji (hs.single j i (by simp [hj, Pc.resets]) (by simp [hset, Pc.resets]))
  · intro j v hj
    rcases eq_or_ne j i with rfl | hji
    · simp only [Function.update_self] at hj
      exact hmove.loaded_pass hj
    · simp only [Function.update_of_ne hji] at hj
      rw [hs.loaded j v hj]
      refine (hmove.passed_eq (fun w hw => ?_) (fun hset => ?_)).symm
      · exact hji (hs.round.lock.unique j i (by simp [hj, Pc.holds]) (by simp [hw, Pc.holds]))
      · exact hpos (j := j) (by simp [hj, WaitsAt]) (hs.fresh i (by simp [hset, Pc.resets]))

theorem liveInv_step {r k : Nat} {s : State n} {i : Fin n} (hs : LiveInv r k s)
    (hguard : OrderlyStep r s i) : ∃ k', LiveInv r k' (step s i) := by
  rcases eq_or_ne ((s.harts i).pc) .resetTokens with hpc | hpc
  · exact ⟨k + 1, liveInv_step_reset hs hpc⟩
  · exact ⟨k, liveInv_step_stay hs hguard hpc (roundInv_step_of_ne_reset hs.round hpc)⟩

/-- The barrier is in some round of an orderly run. -/
def Live (r : Nat) (s : State n) : Prop := ∃ k, LiveInv r k s

theorem live_of_reachable {r : Nat} {s : State n} (hn : 0 < n)
    (h : Reachable next (OrderlyStep r) Init s) : Live r s := by
  refine h.invariant _ (fun s hs => ⟨0, liveInv_init hn hs⟩) ?_
  rintro s i t ⟨k, hk⟩ hguard ht
  cases Option.some.inj ht
  exact liveInv_step hk hguard

/-- A hart at the `passed` loop waits for a hart inside the barrier, which is
not itself waiting for a reset. -/
theorem LiveInv.exists_inside {r k : Nat} {s : State n} (hs : LiveInv r k s) {i : Fin n}
    (hpc : (s.harts i).pc = .spinPassed) (hpassed : s.passed ≠ initial n) :
    ∃ j, (s.harts j).taken = k ∧ (s.harts j).pc.inside := by
  have hsum := hs.passed i hpc
  have hsome : count (NotPassed k) s.harts ≠ 0 := by
    intro hzero
    apply hpassed
    simp only [initial]
    omega
  rw [Ne, count_eq_zero_iff] at hsome
  push Not at hsome
  exact hsome

theorem LiveInv.not_stuck {r k : Nat} {s : State n} (hs : LiveInv r k s) : ¬ Stuck r s := by
  rintro ⟨⟨u, hu⟩, hall⟩
  have hfree : s.locked = 0 := by
    by_contra hlocked
    obtain ⟨j, hj⟩ := hs.round.lock.locked.mp hlocked
    have hwaiting := hall j (by rintro ⟨hidle, -⟩; simp [hidle, Pc.holds] at hj)
    rcases hwaiting with ⟨sec, hpc, -⟩ | ⟨hpc, -⟩ | ⟨hpc, -⟩ <;> simp [hpc, Pc.holds] at hj
  -- so every hart that is not done is at one of the two spin loops
  have hspin : ∀ j, Unfinished r (s.harts j) →
      ((s.harts j).pc = .spinPassed ∧ s.passed ≠ initial n) ∨
        ((s.harts j).pc = .spinTokens ∧ (s.harts j).taken = k + 1) := by
    intro j hj
    rcases hall j hj with ⟨sec, -, hlocked⟩ | hpassed | ⟨hpc, htokens⟩
    · exact absurd hfree hlocked
    · exact .inl hpassed
    · exact .inr ⟨hpc, hs.seen htokens j (by simp [hpc, Pc.awaitsReset])⟩
  have hnone : ∀ j, Unfinished r (s.harts j) → (s.harts j).taken = k + 1 ∧
      (s.harts j).pc = .spinTokens := by
    intro j hj
    rcases hspin j hj with ⟨hpc, hpassed⟩ | ⟨hpc, htaken⟩
    · exfalso
      obtain ⟨i, htaken, hinside⟩ := hs.exists_inside hpc hpassed
      rcases hspin i (by rintro ⟨hidle, -⟩; simp [hidle, Pc.inside] at hinside) with
        ⟨hi, -⟩ | ⟨-, hi⟩
      · simp [hi, Pc.inside] at hinside
      · omega
    · exact ⟨htaken, hpc⟩
  -- a hart in its call number `k + 1` shows that none is done
  have hmore : k + 1 ≤ r :=
    (hnone u hu).1 ▸ (taken_le_of_calls (hs.round.calls u)).trans (hs.limit u)
  have hunfinished : ∀ j, Unfinished r (s.harts j) := by
    rintro j ⟨-, hreturned⟩
    have := hs.round.returned_le j
    omega
  have hzero : s.tokens = 0 := by
    have hcount : count (fun h : Hart => h.taken = k + 1) s.harts = Fintype.card (Fin n) :=
      (count_eq_card_iff _ _).mpr fun j => (hnone j (hunfinished j)).1
    have htokens := hs.round.tokens
    rw [hcount, Fintype.card_fin] at htokens
    omega
  obtain ⟨j, hj⟩ := hs.last hzero
  simp [(hnone j (hunfinished j)).2, Pc.resets] at hj

/-- When all harts find `tokens` at zero, they all wait for `passed`. -/
theorem exists_reachable_stuck {r : Nat} (hn : 2 ≤ n) (hr : 0 < r) :
    ∃ s : State n, Reach r s ∧ Stuck r s := by
  have hlast : Reach (n := n) r ⟨0, 0, 0, fun _ => ⟨.setPassed, 1, 0⟩⟩ := by
    refine Reach.sweep (t := fun _ => 0) (p := fun _ => 0) (a := ⟨.lastHart, 1, 0⟩) ?_
      (Reach.allTaken hr)
    exact fun k hk f hreach => hreach.move (.isLast rfl) nofun
  have hspin : Reach (n := n) r ⟨initial n, 1, 0, fun _ => ⟨.spinPassed, 1, 0⟩⟩ := by
    have hall := Reach.sweep (n := n) (r := r) (t := fun k => if k = 0 then 0 else initial n)
      (p := fun k => if k = 0 then 0 else 1) (a := ⟨.setPassed, 1, 0⟩)
      (b := ⟨.spinPassed, 1, 0⟩)
      (fun k hk f hreach => by simpa using hreach.resetBarrier) (by simpa using hlast)
    simpa [show n ≠ 0 by omega] using hall
  refine ⟨_, hspin, ⟨⟨0, by omega⟩, by simp [Unfinished]⟩, fun i _ => ?_⟩
  refine .inr (.inl ⟨rfl, ?_⟩)
  simp only [initial]
  omega

theorem singleHart_orderly (s : State 1) (i : Fin 1) : SingleReset s i ∧ ResetSeen s i := by
  constructor
  · intro hpc _ j
    rw [Subsingleton.elim j i, hpc]
    simp [Pc.resets]
  · intro v hpc _ j
    rw [Subsingleton.elim j i, hpc]
    simp [Pc.awaitsReset]

theorem idle_of_reachable_zero {s : State n} (h : Reachable next (CallLimit 0) Init s) :
    ∀ i, (s.harts i).pc = .idle := by
  induction h with
  | start hs =>
      obtain ⟨passed, rfl⟩ := hs
      exact fun _ => rfl
  | @next s t j _ hlimit _ ih => exact absurd (hlimit (ih j)) (Nat.not_lt_zero _)

/-- A run in which each reset is made once and seen by all harts before the
next round starts never gets stuck.  Some run does get stuck as soon as there
are two harts and a call to make. -/
theorem waitBarrier_not_stuck (n r : Nat) (hn : 0 < n) :
    (∀ s : State n, Reachable next (OrderlyStep r) Init s → ¬ Stuck r s) ∧
      ((∀ s : State n, Reachable next (CallLimit r) Init s → ¬ Stuck r s) ↔
        n = 1 ∨ r = 0) := by
  have horderly : ∀ s : State n, Reachable next (OrderlyStep r) Init s → ¬ Stuck r s := by
    intro s hs
    obtain ⟨k, hk⟩ := live_of_reachable hn hs
    exact hk.not_stuck
  refine ⟨horderly, fun h => ?_, fun h s hs => ?_⟩
  · by_contra hnot
    obtain ⟨s, hs, hstuck⟩ := exists_reachable_stuck (n := n) (r := r) (by omega) (by omega)
    exact h s hs hstuck
  · refine horderly s (hs.mono fun s i hreach hlimit => ?_)
    rcases h with rfl | rfl
    · exact ⟨hlimit, singleHart_orderly s i⟩
    · have hidle := idle_of_reachable_zero hreach i
      exact absurd (hlimit hidle) (Nat.not_lt_zero _)

/-- Two harts go through a round, contending for the lock, and hart 0 has begun the
next one when hart 1 returns. -/
theorem exists_orderly_run : ∃ schedule : List (Fin 2),
    GuardedRun next (OrderlyStep 2) (initBarrier 2 0) schedule ∧
      ∃ s, run next (initBarrier 2 0) schedule = some s ∧ (s.harts 0).started = 2 ∧
        (s.harts 1).returned = 1 :=
  ⟨[0, 1, 0, 1, 0, 1, 0, 0, 0, 1, 1, 1, 0, 1, 1, 1, 0, 1, 1, 0, 0, 0, 1, 0, 0, 0, 0, 0, 0, 0, 0, 1],
    by decide, _, rfl, by decide, by decide⟩

theorem waitBarrier_not_stuck_orderly :
    (∀ s : State 1, Reachable next (CallLimit 5) Init s → ¬ Stuck 5 s) ∧
      ∃ s : State 2, Reachable next (OrderlyStep 2) Init s ∧ (s.harts 0).started = 2 ∧
        (s.harts 1).returned = 1 ∧ ¬ Stuck 2 s := by
  refine ⟨(waitBarrier_not_stuck 1 5 (by decide)).2.mpr (.inl rfl), ?_⟩
  obtain ⟨schedule, hguard, s, hrun, hstarted, hreturned⟩ := exists_orderly_run
  have hs : Reachable next (OrderlyStep 2) Init s :=
    .of_guardedRun (.start ⟨0, rfl⟩) hguard hrun
  exact ⟨s, hs, hstarted, hreturned, (waitBarrier_not_stuck 2 2 (by decide)).1 s hs⟩

/-- Two harts and one call are enough to get stuck. -/
theorem waitBarrier_stuck_two :
    ∃ s : State 2, Reachable next (CallLimit 1) Init s ∧ Stuck 1 s :=
  exists_reachable_stuck (by decide) (by decide)

end RiscvHypervisor.Barrier
