import Mathlib.Data.Set.Lattice
import Mathlib.Order.CompletePartialOrder

/-!
Noninterference between domains.  Every step of a machine belongs to one domain and
gives an answer to it; a step that is not modelled has no answer, and the run ends in
front of it.  Where a step changes nothing that other domains can see, and what it
does for its own domain depends only on what that domain sees, a domain gets the
answers that it would get without the others.
-/

namespace RiscvHypervisor.Unwinding

universe u v w x

section Machines

variable {σ : Type u} {Λ : Type v} {β : Type w}

/-- All steps with their answers, and the state after them. -/
def play (step : σ → Λ → Option (β × σ)) : σ → List Λ → Option (List (Λ × β) × σ)
  | s, [] => some ([], s)
  | s, l :: ls => (step s l).bind fun r =>
      (play step r.2 ls).map fun rest => ((l, r.1) :: rest.1, rest.2)

variable {step : σ → Λ → Option (β × σ)}

theorem play_cons_eq_some {s s' : σ} {l : Λ} {ls : List Λ} {xs : List (Λ × β)} :
    play step s (l :: ls) = some (xs, s') ↔ ∃ b t rest, step s l = some (b, t) ∧
      play step t ls = some (rest, s') ∧ xs = (l, b) :: rest := by
  simp only [play, Option.bind_eq_some_iff, Option.map_eq_some_iff, Prod.exists, Prod.mk.injEq]
  constructor
  · rintro ⟨b, t, hstep, rest, s'', hrest, rfl, rfl⟩
    exact ⟨b, t, rest, hstep, hrest, rfl⟩
  · rintro ⟨b, t, rest, hstep, hrest, rfl⟩
    exact ⟨b, t, hstep, rest, s', hrest, rfl, rfl⟩

theorem play_invariant {Inv : σ → Prop}
    (hstep : ∀ s l b t, Inv s → step s l = some (b, t) → Inv t) {s s' : σ} (hs : Inv s)
    {ls : List Λ} {xs : List (Λ × β)} (h : play step s ls = some (xs, s')) : Inv s' := by
  induction ls generalizing s xs with
  | nil =>
      cases h
      exact hs
  | cons l ls ih =>
      obtain ⟨b, t, rest, hfirst, hrest, -⟩ := play_cons_eq_some.mp h
      exact ih (hstep s l b t hs hfirst) hrest

end Machines

section Domains

variable {σ : Type u} {Λ : Type v} {β : Type w} {ι : Type x}

/-- The conditions on one step: the invariant is kept, other domains see no change,
and the own domain sees what follows from what it has seen. -/
structure Confined (step : σ → Λ → Option (β × σ)) (domain : Λ → ι) (Inv : σ → Prop)
    (Sees : ι → σ → σ → Prop) : Prop where
  invariant : ∀ s l b s', Inv s → step s l = some (b, s') → Inv s'
  foreign : ∀ s t l b s' i, domain l ≠ i → Inv s → Sees i s t → step s l = some (b, s') →
    Sees i s' t
  own : ∀ s t l b s', Inv s → Inv t → Sees (domain l) s t → step s l = some (b, s') →
    ∃ t', step t l = some (b, t') ∧ Sees (domain l) s' t'

variable [DecidableEq ι] {step : σ → Λ → Option (β × σ)} {domain : Λ → ι} {Inv : σ → Prop}
  {Sees : ι → σ → σ → Prop}

/-- The steps of a domain. -/
def purge (domain : Λ → ι) (i : ι) (ls : List Λ) : List Λ :=
  ls.filter fun l => domain l = i

/-- The answers to a domain. -/
def received (domain : Λ → ι) (i : ι) (xs : List (Λ × β)) : List (Λ × β) :=
  xs.filter fun x => domain x.1 = i

/-- What a domain sees at the end, and the answers on the way, are those of its own
steps alone. -/
theorem Confined.play_purge (h : Confined step domain Inv Sees) {i : ι} {s s' t : σ} (hs : Inv s)
    (ht : Inv t) (hst : Sees i s t) {ls : List Λ} {xs : List (Λ × β)}
    (hplay : play step s ls = some (xs, s')) :
    ∃ t', play step t (purge domain i ls) = some (received domain i xs, t') ∧ Sees i s' t' := by
  induction ls generalizing s t xs with
  | nil =>
      cases hplay
      exact ⟨t, rfl, hst⟩
  | cons l ls ih =>
      obtain ⟨b, s₁, rest, hstep, hrest, rfl⟩ := play_cons_eq_some.mp hplay
      have hinv := h.invariant s l b s₁ hs hstep
      rcases eq_or_ne (domain l) i with rfl | hne
      · obtain ⟨t₁, hstep', hsees⟩ := h.own s t l b s₁ hs ht hst hstep
        obtain ⟨t', hplay', hend⟩ := ih hinv (h.invariant t l b t₁ ht hstep') hsees hrest
        have hkeep : purge domain (domain l) (l :: ls) = l :: purge domain (domain l) ls := by
          simp [purge]
        have hanswer : received domain (domain l) ((l, b) :: rest) =
            (l, b) :: received domain (domain l) rest := by simp [received]
        rw [hkeep, hanswer]
        exact ⟨t', play_cons_eq_some.mpr ⟨b, t₁, _, hstep', hplay', rfl⟩, hend⟩
      · have hdrop : purge domain i (l :: ls) = purge domain i ls := by simp [purge, hne]
        have hanswer : received domain i ((l, b) :: rest) = received domain i rest := by
          simp [received, hne]
        rw [hdrop, hanswer]
        exact ih hinv ht (h.foreign s t l b s₁ i hne hs hst hstep) hrest

end Domains

section Memories

variable {W : Type u} {V : Type v} {Λ : Type w} {β ι : Type x}

/-- The memories are the same on a set of words. -/
def SameOn (words : Set W) (m m' : W → V) : Prop := ∀ a ∈ words, m a = m' a

/-- A machine whose state is a memory, each domain having words of its own. -/
theorem confined_of_words {step : (W → V) → Λ → Option (β × (W → V))} {domain : Λ → ι}
    {Inv : (W → V) → Prop} {words : ι → Set W}
    (hinv : ∀ m l b m', Inv m → step m l = some (b, m') → Inv m')
    (hwrites : ∀ m l b m', Inv m → step m l = some (b, m') → ∀ a ∉ words (domain l), m' a = m a)
    (hapart : ∀ i j, i ≠ j → Disjoint (words i) (words j))
    (hreads : ∀ m n l b m', Inv m → Inv n → SameOn (words (domain l)) m n →
      step m l = some (b, m') → ∃ n', step n l = some (b, n') ∧ SameOn (words (domain l)) m' n') :
    Confined step domain Inv fun i => SameOn (words i) where
  invariant := hinv
  foreign m n l b m' i hne hm hsame hstep a ha := by
    have hout : a ∉ words (domain l) :=
      Set.disjoint_right.mp (hapart (domain l) i hne) ha
    rw [hwrites m l b m' hm hstep a hout, hsame a ha]
  own := hreads

end Memories

end RiscvHypervisor.Unwinding
