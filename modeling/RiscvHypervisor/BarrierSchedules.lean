import RiscvHypervisor.Barrier

/-!
Schedules of the barrier, built move by move: what a hart reaches when it runs
alone for a while.
-/

namespace RiscvHypervisor.Barrier

open RiscvHypervisor.TransitionSystem

variable {n r : Nat}

theorem Move.unique {t p l t₁ p₁ l₁ t₂ p₂ l₂ : Int} {h h₁ h₂ : Hart}
    (hmove₁ : Move n t p l h t₁ p₁ l₁ h₁) (hmove₂ : Move n t p l h t₂ p₂ l₂ h₂) :
    t₁ = t₂ ∧ p₁ = p₂ ∧ l₁ = l₂ ∧ h₁ = h₂ := by
  cases hmove₁ <;> cases hmove₂ <;> simp_all

/-- Reached by a run in which no hart makes more than `r` calls. -/
def Reach (r : Nat) (s : State n) : Prop := Reachable next (CallLimit r) Init s

theorem reach_init : Reach r (initBarrier n 0) := .start ⟨0, rfl⟩

namespace Reach

variable {t p l t' p' l' : Int} {f : Fin n → Hart} {i : Fin n} {h h' : Hart} {k m : Nat}

theorem focus (hr : Reach r ⟨t, p, l, f⟩) (hi : f i = h) :
    Reach r ⟨t, p, l, Function.update f i h⟩ := by
  rw [← hi, Function.update_eq_self]
  exact hr

theorem move (hr : Reach r ⟨t, p, l, Function.update f i h⟩)
    (hmove : Move n t p l h t' p' l' h') (hlimit : h.pc = .idle → h.returned < r) :
    Reach r ⟨t', p', l', Function.update f i h'⟩ := by
  obtain ⟨t₁, p₁, l₁, h₁, hmove₁, heq⟩ := exists_move ⟨t, p, l, Function.update f i h⟩ i
  simp only [Function.update_self] at hmove₁
  obtain ⟨rfl, rfl, rfl, rfl⟩ := hmove.unique hmove₁
  refine .next (l := i) hr ?_ ?_
  · intro hidle
    simp only [Function.update_self] at hidle ⊢
    exact hlimit hidle
  · simp [next, heq]

/-- A hart that calls `wait_barrier` while the lock is free takes a token. -/
theorem takeToken (hr : Reach r ⟨t, p, 0, Function.update f i ⟨.idle, k, m⟩⟩) (hm : m < r) :
    Reach r ⟨t - 1, p, 0, Function.update f i ⟨.lastHart, k + 1, m⟩⟩ := by
  have hacquire := ((hr.move .call fun _ => hm).move (.lockFree rfl) nofun).move
    (.winSwap rfl) nofun
  exact ((hacquire.move .loadTokens nofun).move .storeTokens nofun).move .releaseTokens nofun

/-- A hart that sees the reset passes the barrier. -/
theorem passBarrier
    (hr : Reach r ⟨initial n, p, 0, Function.update f i ⟨.spinTokens, k, m⟩⟩) :
    Reach r ⟨initial n, p + 1, 0, Function.update f i ⟨.idle, k, m + 1⟩⟩ := by
  have hacquire := ((hr.move (.seeReset rfl) nofun).move (.lockFree rfl) nofun).move
    (.winSwap rfl) nofun
  exact ((hacquire.move .loadPassed nofun).move .storePassed nofun).move .releasePassed nofun

/-- The last-hart branch up to its spin loop. -/
theorem resetBarrier (hr : Reach r ⟨t, p, 0, Function.update f i ⟨.setPassed, k, m⟩⟩) :
    Reach r ⟨initial n, 1, 0, Function.update f i ⟨.spinPassed, k, m⟩⟩ :=
  (hr.move .setPassed nofun).move .resetTokens nofun

/-- All harts do the same, one after the other. -/
theorem sweep {t p : Nat → Int} {a b : Hart}
    (hone : ∀ k (hk : k < n) f, Reach r ⟨t k, p k, 0, Function.update f ⟨k, hk⟩ a⟩ →
      Reach r ⟨t (k + 1), p (k + 1), 0, Function.update f ⟨k, hk⟩ b⟩)
    (hstart : Reach (n := n) r ⟨t 0, p 0, 0, fun _ => a⟩) :
    Reach (n := n) r ⟨t n, p n, 0, fun _ => b⟩ := by
  have hsome : ∀ k ≤ n,
      Reach (n := n) r ⟨t k, p k, 0, fun j => if j.val < k then b else a⟩ := by
    intro k hk
    induction k with
    | zero => simpa using hstart
    | succ k ih =>
        have hnext := hone k hk _ ((ih (by omega)).focus (i := ⟨k, hk⟩) (by simp))
        convert hnext using 2
        funext j
        rcases eq_or_ne j ⟨k, hk⟩ with rfl | hj
        · simp
        · have hval : j.val ≠ k := fun hval => hj (Fin.ext hval)
          rw [Function.update_of_ne hj]
          congr 1
          exact propext ⟨fun _ => by omega, fun _ => by omega⟩
  simpa using hsome n le_rfl

/-- Every hart has taken its token and none has tested for the last hart. -/
theorem allTaken (hlimit : 0 < r) :
    Reach (n := n) r ⟨0, 0, 0, fun _ => ⟨.lastHart, 1, 0⟩⟩ := by
  have htaken := sweep (n := n) (r := r) (t := fun k => n - k) (p := fun _ => 0)
    (a := ⟨.idle, 0, 0⟩) (b := ⟨.lastHart, 1, 0⟩) ?_ ?_
  · simpa using htaken
  · intro k hk f hr
    have hnext := hr.takeToken hlimit
    have htokens : (n : Int) - k - 1 = n - (k + 1 : Nat) := by omega
    rw [htokens] at hnext
    exact hnext
  · simpa [initBarrier, initial] using reach_init (n := n) (r := r)

end Reach

end RiscvHypervisor.Barrier
