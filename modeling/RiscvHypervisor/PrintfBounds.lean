import RiscvHypervisor.PrintfFormat

/-!
How far `printf` reads its format string.  It steps on after the type letter of
a directive without a look at it, so a string that ends inside a directive is
left through its terminator.
-/

namespace RiscvHypervisor.PrintfBounds

open RiscvHypervisor.EffectProgram
open RiscvHypervisor.MachineTypes
open RiscvHypervisor.Printf
open RiscvHypervisor.PrintfOutput
open RiscvHypervisor.PrintfFormat

/-- No directive of the string is cut off: after `%`, a format letter and the
length letters that are there, a character follows. -/
inductive Complete : List Char → Prop
  | nil : Complete []
  | ordinary {c : Char} {cs : List Char} : c ≠ '%' → Complete cs → Complete (c :: cs)
  | directive {c : Char} {cs rest : List Char} : (takeLength (takeFormat cs).2).2 = c :: rest →
      Complete rest → Complete ('%' :: cs)

/-- `printf` ends within the string: every index it reads is up to that of the
terminator, it takes no more steps than there are characters, and its loop ends. -/
structure StaysInside (fmt : Uint64) (t : Console) (length : Nat) : Prop where
  reads : ∀ i ∈ fmtReads (printf length fmt) t, i ≤ length
  steps : (fmtReads (printf length fmt) t).length ≤ length + 1
  ends : (exec consoleHandler (printf length fmt) t).1 ≠ .ok none

section Loop

variable {t : Console} {s : Cursor} {cs : List Char}

theorem complete_cons_iff {c : Char} (hc : c ≠ '%') : Complete (c :: cs) ↔ Complete cs := by
  constructor
  · intro h
    cases h with
    | ordinary _ hcs => exact hcs
    | directive _ _ => exact absurd rfl hc
  · exact .ordinary hc

theorem complete_directive_iff {c : Char} {rest : List Char}
    (hrest : (takeLength (takeFormat cs).2).2 = c :: rest) :
    Complete ('%' :: cs) ↔ Complete rest := by
  constructor
  · intro h
    cases h with
    | ordinary hne _ => exact absurd rfl hne
    | directive heq hcomplete =>
        rw [hrest] at heq
        rwa [(List.cons.inj heq).2]
  · exact .directive hrest

theorem not_complete_of_cut (hcut : (takeLength (takeFormat cs).2).2 = []) :
    ¬ Complete ('%' :: cs) := by
  intro h
  cases h with
  | ordinary hne _ => exact hne rfl
  | directive heq _ =>
      rw [hcut] at heq
      exact List.cons_ne_nil _ _ heq.symm

/-- A round takes some characters off the string, or it runs over the
terminator of a string that is cut off. -/
theorem prints_printfRound {c : Char} (hc : s.c = t.fmt s.i) (h : HoldsAt t.fmt s.i (c :: cs)) :
    ∃ s₁ m text taken, s₁.i = s.i + m ∧ s₁.c = t.fmt s₁.i ∧
      Prints t (printfRound s) s₁ text taken (List.range' (s.i + 1) m) ∧
      ((∃ rest, 1 ≤ m ∧ m + rest.length = cs.length + 1 ∧ HoldsAt t.fmt s₁.i rest ∧
          (Complete (c :: cs) ↔ Complete rest)) ∨
        (m = cs.length + 2 ∧ ¬ Complete (c :: cs))) := by
  have hhead : s.c = c := hc.trans h.1
  rcases Decidable.em (c = '%') with rfl | hne
  · obtain ⟨k, hk, hholds, hround⟩ := prints_directive t hhead h.2.2
    refine ⟨_, k + 1, _, _, rfl, rfl, hround, ?_⟩
    rcases hrest : (takeLength (takeFormat cs).2).2 with _ | ⟨c, rest⟩
    · rw [hrest] at hk
      exact .inr ⟨congrArg (· + 1) hk, not_complete_of_cut hrest⟩
    · rw [hrest] at hk hholds
      rw [List.length_cons] at hk
      exact .inl ⟨rest, by omega, by omega, hholds.2.2, complete_directive_iff hrest⟩
  · refine ⟨_, 1, _, _, rfl, rfl, prints_ordinary t (hhead ▸ hne), .inl ⟨cs, le_refl 1, ?_⟩⟩
    exact ⟨Nat.add_comm _ _, h.2.2, complete_cons_iff hne⟩

theorem printfLoop_succ {s₁ : Cursor} {text : List Char} {taken : Nat} {reads : List Nat}
    (hne : s.c ≠ nul) (hround : Prints t (printfRound s) s₁ text taken reads) (rounds : Nat) :
    ∃ t₁, t₁.fmt = t.fmt ∧
      exec consoleHandler (printfLoop (rounds + 1) s) t =
        exec consoleHandler (printfLoop rounds s₁) t₁ ∧
      fmtReads (printfLoop (rounds + 1) s) t = reads ++ fmtReads (printfLoop rounds s₁) t₁ := by
  obtain ⟨buf, hexec⟩ := hround.run
  refine ⟨{ t with buf := buf, out := t.out ++ text, taken := t.taken + taken }, rfl, ?_⟩
  rw [printfLoop, if_neg hne, exec_bind_ok consoleHandler hexec, fmtReads_bind hexec, hround.reads]
  exact ⟨rfl, rfl⟩

/-- The whole loop, by what is left of the string. -/
theorem printfLoop_reads (length : Nat) (hlength : cs.length = length) (hc : s.c = t.fmt s.i)
    (h : HoldsAt t.fmt s.i cs) {rounds : Nat} (hrounds : cs.length ≤ rounds) :
    (Complete cs → (∃ s' t', exec consoleHandler (printfLoop rounds s) t = (.ok (some s'), t')) ∧
        fmtReads (printfLoop rounds s) t = List.range' (s.i + 1) cs.length) ∧
      (¬ Complete cs → s.i + cs.length + 1 ∈ fmtReads (printfLoop rounds s) t) := by
  induction length using Nat.strong_induction_on generalizing s t cs rounds with
  | _ length ih =>
      cases cs with
      | nil =>
          have hnul : s.c = nul := hc.trans h
          have hloop : printfLoop rounds s = pure (some s) := by
            cases rounds <;> rw [printfLoop, if_pos hnul]
          rw [hloop]
          exact ⟨fun _ => ⟨⟨s, t, rfl⟩, rfl⟩, fun hnot => absurd .nil hnot⟩
      | cons c cs =>
          rw [List.length_cons] at hlength hrounds
          obtain ⟨rounds, rfl⟩ := Nat.exists_eq_add_of_le' (Nat.one_le_of_lt hrounds)
          have hne : s.c ≠ nul := by
            rw [hc, h.1]
            exact h.2.1
          obtain ⟨s₁, m, text, taken, hi, hc₁, hround, hcases⟩ := prints_printfRound hc h
          obtain ⟨t₁, hfmt, hexec, hreads⟩ := printfLoop_succ hne hround rounds
          rw [hexec, hreads]
          rcases hcases with ⟨rest, hpos, hm, hholds, hiff⟩ | ⟨hm, hcut⟩
          · rw [← hfmt] at hc₁ hholds
            obtain ⟨hcomplete, hincomplete⟩ := ih rest.length (by omega) rfl hc₁ hholds
              (show rest.length ≤ rounds by omega)
            rw [hiff]
            refine ⟨fun hrest => ⟨(hcomplete hrest).1, ?_⟩, fun hrest => ?_⟩
            · rw [(hcomplete hrest).2, hi, Nat.add_right_comm, List.range'_append_1, hm,
                List.length_cons]
            · refine List.mem_append_right _ ?_
              have hmem := hincomplete hrest
              rwa [hi, Nat.add_assoc s.i, hm] at hmem
          · refine ⟨fun hcs => absurd hcs hcut, fun _ => List.mem_append_left _ ?_⟩
            rw [List.mem_range'_1, hm, List.length_cons]
            omega

theorem fmtReads_afterLoop (last : Option Cursor) (t : Console) :
    fmtReads (afterLoop last) t = [] := by
  apply fmtReads_of_uses
  cases last with
  | none => trivial
  | some s =>
      refine ⟨rfl, fun _ => ?_⟩
      exact Program.uses_ite trivial (Program.uses_ite trivial trivial)

theorem exec_afterLoop_ne_none (s : Cursor) (t : Console) :
    (exec consoleHandler (afterLoop (some s)) t).1 ≠ .ok none := by
  rcases s with ⟨c, i, _ | _, _ | _⟩ <;> nofun

theorem fmtReads_subset_bind {α β : Type} (p : PrintfM α) (f : α → PrintfM β) (t : Console) :
    fmtReads p t ⊆ fmtReads (p >>= f) t := by
  rcases hp : exec consoleHandler p t with ⟨_ | a, t'⟩
  · simp only [fmtReads, accesses_bind_error consoleHandler hp, List.Subset.refl]
  · rw [fmtReads_bind hp]
    exact List.subset_append_left _ _

end Loop

section Calls

variable {fmt : Uint64} {t : Console} {cs : List Char}

theorem staysInside_of_complete (hfmt : fmt ≠ 0) (h : HoldsAt t.fmt 0 cs) (hcs : Complete cs) :
    StaysInside fmt t cs.length := by
  have hloop := printfLoop_reads (t := { t with held := true }) (s := startOf t) cs.length rfl rfl h
    (le_refl _)
  obtain ⟨⟨s', t', hexec⟩, hreads⟩ := hloop.1 hcs
  have hall : fmtReads (printf cs.length fmt) t = 0 :: List.range' 1 cs.length := by
    rw [fmtReads_printf hfmt, fmtReads_bind hexec, hreads, fmtReads_afterLoop, List.append_nil]
    rfl
  constructor
  · intro i hi
    rw [hall, List.mem_cons, List.mem_range'_1] at hi
    omega
  · rw [hall, List.length_cons, List.length_range']
  · rw [exec_printf hfmt, exec_bind_ok consoleHandler hexec]
    exact exec_afterLoop_ne_none s' t'

theorem not_staysInside_of_cut (hfmt : fmt ≠ 0) (h : HoldsAt t.fmt 0 cs) (hcs : ¬ Complete cs) :
    ¬ StaysInside fmt t cs.length := by
  intro hinside
  have hloop := printfLoop_reads (t := { t with held := true }) (s := startOf t) cs.length rfl rfl h
    (le_refl _)
  have hmem : 0 + cs.length + 1 ∈ fmtReads (printf cs.length fmt) t := by
    rw [fmtReads_printf hfmt]
    exact List.mem_cons_of_mem _ (fmtReads_subset_bind _ _ _ (hloop.2 hcs))
  have hle := hinside.reads _ hmem
  omega

/-- `printf` stays inside its format string exactly if no directive is cut off. -/
theorem staysInside_iff (fmt : Uint64) (hfmt : fmt ≠ 0) (t : Console) (cs : List Char)
    (h : HoldsAt t.fmt 0 cs) : StaysInside fmt t cs.length ↔ Complete cs := by
  constructor
  · intro hinside
    rcases Classical.em (Complete cs) with hcs | hcs
    · exact hcs
    · exact absurd hinside (not_staysInside_of_cut hfmt h hcs)
  · exact staysInside_of_complete hfmt h

/-- `printf("%d\n", 7)` -/
theorem staysInside_line : (1 : Uint64) ≠ 0 ∧
    HoldsAt (called "%d\n".toList [7]).fmt 0 "%d\n".toList ∧
      StaysInside 1 (called "%d\n".toList [7]) "%d\n".toList.length := by
  have hholds := holdsAt_called "%d\n".toList [7] (by decide)
  refine ⟨by decide, hholds, (staysInside_iff 1 (by decide) _ _ hholds).mpr ?_⟩
  exact .directive rfl (.ordinary (by decide) .nil)

/-- `printf("100%")` -/
theorem leaves_format_string :
    ¬ StaysInside 1 (called "100%".toList []) "100%".toList.length := by
  have hholds := holdsAt_called "100%".toList [] (by decide)
  refine not_staysInside_of_cut (by decide) hholds ?_
  simp only [show "100%".toList = ['1', '0', '0', '%'] from rfl]
  rw [complete_cons_iff (by decide), complete_cons_iff (by decide), complete_cons_iff (by decide)]
  exact not_complete_of_cut rfl

end Calls

end RiscvHypervisor.PrintfBounds
