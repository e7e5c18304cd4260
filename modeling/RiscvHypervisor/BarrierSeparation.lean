import RiscvHypervisor.BarrierRounds
import RiscvHypervisor.BarrierSchedules

/-!
The barrier separates rounds as long as no reset of `tokens` discards a
decrement.  With one or two harts no run does; with three harts or more some
run lets a hart pass twice while the others are still in their first call.
-/

namespace RiscvHypervisor.Barrier

open RiscvHypervisor.TransitionSystem

variable {n : Nat}

/-- With at most two harts, a hart that resets late finds the other one still
waiting for it. -/
structure PairInv (s : State n) : Prop where
  late : ∀ j, (s.harts j).pc.resets → s.tokens = 0 ∨
    (s.tokens = initial n ∧ s.passed = 1 ∧ ∀ i, i ≠ j → (s.harts i).pc = .spinPassed)
  passed : ∀ j, (s.harts j).pc = .resetTokens → s.passed = 1

theorem PairInv.keepsDecrements {s : State n} (h : PairInv s) (i : Fin n) :
    KeepsDecrements s i := by
  intro hpc
  rcases h.late i (by simp [hpc, Pc.resets]) with hzero | ⟨hinit, -, -⟩
  · exact .inl hzero
  · exact .inr hinit

theorem pairInv_init {s : State n} (h : Init s) : PairInv s := by
  obtain ⟨passed, rfl⟩ := h
  constructor <;> simp [initBarrier, Pc.resets]

theorem Move.passed_cases {t p l t' p' l' : Int} {h h' : Hart}
    (hmove : Move n t p l h t' p' l' h') (hstore : ∀ v, h.pc ≠ .storeCount .pass v) :
    p' = p ∨ p' = 1 := by
  cases hmove <;> simp_all

/-- What the other hart can do while a hart is about to reset. -/
theorem PairInv.other {r : Nat} {s : State n} (hn : n ≤ 2) (hr : RoundInv r s)
    (hs : PairInv s) {i j : Fin n} (hij : j ≠ i) (hj : (s.harts j).pc.resets)
    {t p l : Int} {h : Hart}
    (hmove : Move n s.tokens s.passed s.locked (s.harts i) t p l h) :
    (s.tokens = 0 ∧ t = 0 ∧ (p = s.passed ∨ p = 1)) ∨
      (t = initial n ∧ p = 1 ∧ s.passed = 1 ∧ h.pc = .spinPassed) := by
  have htwo : n = 2 := by omega
  rcases hs.late j hj with hzero | ⟨hinit, hpassed, hspin⟩
  · have hwait := hr.waits i (hr.taken_of_tokens_zero hzero i)
    rcases eq_or_ne ((s.harts i).pc) .resetTokens with hreset | hreset
    · have hpassed := hs.passed i hreset
      rcases hi : s.harts i with ⟨pc, k, m⟩
      rw [hi] at hmove hreset
      simp only at hreset
      subst hreset
      cases hmove
      exact .inr ⟨rfl, hpassed, hpassed, rfl⟩
    · have hseen : s.tokens ≠ initial n := by simp [hzero, initial, htwo]
      refine .inl ⟨hzero, ?_, ?_⟩
      · rw [← hzero]
        exact (hmove.taken_eq (fun v hv => by simp [hv, WaitsAt] at hwait) hreset).2
      · exact hmove.passed_cases fun v hv => by simp [hv, WaitsAt] at hwait
  · have hother := hspin i hij.symm
    rcases hi : s.harts i with ⟨pc, k, m⟩
    rw [hi] at hmove hother
    simp only at hother
    subst hother
    cases hmove with
    | othersInside => exact .inr ⟨hinit, hpassed, hpassed, rfl⟩
    | allPassed hall => simp [hpassed, initial, htwo] at hall

theorem pairInv_step {r : Nat} {s : State n} (hn : n ≤ 2) (hr : RoundInv r s)
    (hs : PairInv s) (i : Fin n) : PairInv (step s i) := by
  obtain ⟨t, p, l, h, hmove, heq⟩ := exists_move s i
  rw [heq]
  constructor
  · intro j hj
    rcases eq_or_ne j i with rfl | hne
    · simp only [Function.update_self] at hj
      rcases hi : s.harts j with ⟨pc, k, m⟩
      rw [hi] at hmove
      cases hmove <;> simp only [Pc.resets, Bool.false_eq_true] at hj
      case isLast hzero => exact .inl hzero
      case setPassed =>
        rcases hs.late j (by simp [hi, Pc.resets]) with hzero | ⟨hinit, -, hspin⟩
        · exact .inl hzero
        · refine .inr ⟨hinit, rfl, fun i hij => ?_⟩
          simpa [Function.update_of_ne hij] using hspin i hij
    · simp only [Function.update_of_ne hne] at hj
      rcases hs.other hn hr hne hj hmove with ⟨-, hzero, -⟩ | ⟨hinit, hpassed, -, hspin⟩
      · exact .inl hzero
      · refine .inr ⟨hinit, hpassed, fun k hk => ?_⟩
        -- there are only two harts
        have hki : k = i := by
          apply Fin.ext
          have hkj : k.val ≠ j.val := fun hval => hk (Fin.ext hval)
          have hij : i.val ≠ j.val := fun hval => hne (Fin.ext hval.symm)
          omega
        subst hki
        simpa using hspin
  · intro j hj
    rcases eq_or_ne j i with rfl | hne
    · simp only [Function.update_self] at hj
      rcases hi : s.harts j with ⟨pc, k, m⟩
      rw [hi] at hmove
      cases hmove <;> simp at hj ⊢
    · simp only [Function.update_of_ne hne] at hj
      have hpassed := hs.passed j hj
      rcases hs.other hn hr hne (by simp [hj, Pc.resets]) hmove with ⟨-, -, hp⟩ | ⟨-, hp, -⟩
      · rcases hp with hp | hp
        · simpa [hp] using hpassed
        · exact hp
      · exact hp

/-- With at most two harts every run stays in rounds. -/
theorem inRound_of_le_two {s : State n} (hn : n ≤ 2)
    (h : Reachable next (fun _ _ => True) Init s) : InRound s := by
  have hkeep : Reachable next KeepsDecrements Init s ∧ PairInv s := by
    induction h with
    | start hs => exact ⟨.start hs, pairInv_init hs⟩
    | @next s t i hs _ ht ih =>
        obtain ⟨hreach, hpair⟩ := ih
        obtain ⟨r, hr⟩ := inRound_of_reachable hreach
        refine ⟨.next hreach (hpair.keepsDecrements i) ht, ?_⟩
        cases Option.some.inj ht
        exact pairInv_step hn hr hpair i
  exact inRound_of_reachable hkeep.1

/-- With three harts or more, hart 0 can return from its second call while
hart 1 is still in its first: hart 2 resets `tokens` for the first round after
hart 0 has decremented it for the second. -/
theorem exists_reachable_not_separated (hn : 3 ≤ n) :
    ∃ s : State n, Reachable next (fun _ _ => True) Init s ∧ ¬ Separated s := by
  let h₀ : Fin n := ⟨0, by omega⟩
  let h₁ : Fin n := ⟨1, by omega⟩
  let h₂ : Fin n := ⟨2, by omega⟩
  have h01 : h₀ ≠ h₁ := by simp [h₀, h₁]
  have h02 : h₀ ≠ h₂ := by simp [h₀, h₂]
  have h12 : h₁ ≠ h₂ := by simp [h₁, h₂]
  have hpos : initial n ≠ 0 := by simp only [initial]; omega
  have hpos' : initial n - 1 ≠ 0 := by simp only [initial]; omega
  -- all tokens are gone, and harts 1 and 2 both take the last-hart branch
  have hlast := (Reach.allTaken (n := n) (r := 2) (by omega)).focus (i := h₁) rfl
  have hlast := (hlast.move (.isLast rfl) (by simp)).focus (i := h₂) (Function.update_of_ne h12.symm _ _)
  have hboth := hlast.move (.isLast rfl) (by simp)
  -- hart 1 resets, hart 0 passes and takes a token of the next round
  have hreset := (hboth.focus (i := h₁) (h := ⟨.setPassed, 1, 0⟩) (by simp [h12])).resetBarrier
  have hspin := hreset.focus (i := h₀) (h := ⟨.lastHart, 1, 0⟩) (by simp [h01, h02])
  have hpass := hspin.move (.notLast hpos) (by simp)
  have htake := hpass.passBarrier.takeToken (by omega)
  have hwait := htake.move (.notLast hpos') (by simp)
  -- hart 2 resets once more, and hart 0 passes again
  have hlate := hwait.focus (i := h₂) (h := ⟨.setPassed, 1, 0⟩) (by simp [h02.symm, h12.symm])
  have hagain := hlate.resetBarrier.focus (i := h₀) (h := ⟨.spinTokens, 2, 1⟩) (by simp [h02])
  have hdone := hagain.passBarrier
  refine ⟨_, hdone.mono fun _ _ _ _ => trivial, ?_⟩
  intro hsep
  have := hsep h₀ h₁
  simp [h01.symm, h12] at this

/-- Separation holds in every run whose resets discard no decrement, and in
all runs exactly when there are at most two harts. -/
theorem waitBarrier_separated (n : Nat) :
    (∀ s : State n, Reachable next KeepsDecrements Init s → Separated s) ∧
      ((∀ s : State n, Reachable next (fun _ _ => True) Init s → Separated s) ↔ n ≤ 2) := by
  refine ⟨fun s hs => ?_, fun h => ?_, fun hn s hs => ?_⟩
  · obtain ⟨r, hr⟩ := inRound_of_reachable hs
    exact hr.separated
  · by_contra hn
    obtain ⟨s, hs, hnot⟩ := exists_reachable_not_separated (n := n) (by omega)
    exact hnot (h s hs)
  · obtain ⟨r, hr⟩ := inRound_of_le_two hn hs
    exact hr.separated

/-- Three harts are enough to break separation. -/
theorem waitBarrier_not_separated_three :
    ¬ ∀ s : State 3, Reachable next (fun _ _ => True) Init s → Separated s := by
  intro h
  obtain ⟨s, hs, hnot⟩ := exists_reachable_not_separated (n := 3) (by decide)
  exact hnot (h s hs)

end RiscvHypervisor.Barrier
