import Mathlib.Data.Nat.Basic
import Mathlib.Data.Nat.ModEq
import Mathlib.Tactic.Ring

/-!
Positional notation: numerals as lists of digit characters, most significant
digit first, and the numbers they denote.
-/

namespace RiscvHypervisor.PositionalNotation

/-- The value of a digit below sixteen. -/
def digitValue (c : Char) : Nat := if c.toNat < 58 then c.toNat - 48 else c.toNat - 87

theorem digitValue_digitChar {d : Nat} (h : d < 16) : digitValue d.digitChar = d := by
  have hall : ∀ d : Fin 16, digitValue d.val.digitChar = d.val := by decide
  exact hall ⟨d, h⟩

section Reading

variable {base : Nat}

/-- Reading digits after some have been read. -/
def readFrom (base start : Nat) (cs : List Char) : Nat :=
  cs.foldl (fun n c => base * n + digitValue c) start

/-- The number that digits denote. -/
def readDigits (base : Nat) (cs : List Char) : Nat := readFrom base 0 cs

theorem readFrom_append (start : Nat) (cs cs' : List Char) :
    readFrom base start (cs ++ cs') = readFrom base (readFrom base start cs) cs' :=
  List.foldl_append

theorem readDigits_toDigits (hbase : 1 < base) (hbase' : base ≤ 16) (n : Nat) :
    readDigits base (Nat.toDigits base n) = n := by
  induction n using Nat.strong_induction_on with
  | _ n ih =>
      rw [Nat.toDigits_eq_if hbase]
      split
      · rename_i hlt
        simp [readDigits, readFrom, digitValue_digitChar (hlt.trans_le hbase')]
      · rename_i hge
        have hmod : n % base < 16 := (Nat.mod_lt n (by omega)).trans_le hbase'
        have hread := ih (n / base) (Nat.div_lt_self (by omega) hbase)
        rw [readDigits] at hread
        rw [readDigits, readFrom_append, hread]
        simp [readFrom, digitValue_digitChar hmod, Nat.div_add_mod]

theorem toDigits_inj (hbase : 1 < base) (hbase' : base ≤ 16) {n m : Nat} :
    Nat.toDigits base n = Nat.toDigits base m ↔ n = m := by
  constructor
  · intro h
    rw [← readDigits_toDigits hbase hbase' n, h, readDigits_toDigits hbase hbase']
  · exact congrArg _

/-- A numeral starts with zero only if it is the numeral of zero. -/
theorem toDigits_head_ne_zero (hbase : 1 < base) (hbase' : base ≤ 16) {n : Nat} (hn : n ≠ 0) :
    (Nat.toDigits base n).head? ≠ some '0' := by
  induction n using Nat.strong_induction_on with
  | _ n ih =>
      rw [Nat.toDigits_eq_if hbase]
      split
      · rename_i hlt
        intro hhead
        have hchar : n.digitChar = '0' := by simpa using hhead
        have hvalue := digitValue_digitChar (hlt.trans_le hbase')
        rw [hchar] at hvalue
        exact hn hvalue.symm
      · rename_i hge
        have hquot := ih (n / base) (Nat.div_lt_self (by omega) hbase)
          (Nat.div_pos (by omega) (by omega)).ne'
        have hne : Nat.toDigits base (n / base) ≠ [] := Nat.toDigits_ne_nil
        rwa [List.head?_append, Option.or_of_isSome (by rwa [List.isSome_head?])]

end Reading

section Integers

/-- The decimal numeral of an integer. -/
def numeral (z : Int) : List Char := (toString z).toList

theorem numeral_of_nonneg {z : Int} (h : 0 ≤ z) : numeral z = Nat.toDigits 10 z.toNat := by
  rw [numeral, Int.toString_eq_repr, Int.repr_eq_if, if_pos h, Nat.toList_repr]

theorem numeral_of_neg {z : Int} (h : z < 0) : numeral z = '-' :: Nat.toDigits 10 (-z).toNat := by
  rw [numeral, Int.toString_eq_repr, Int.repr_eq_if, if_neg (by omega), String.toList_append,
    Nat.toList_repr]
  rfl

/-- The integer that a numeral denotes. -/
def readNumeral (cs : List Char) : Int :=
  if cs.head? = some '-' then -readDigits 10 cs.tail else readDigits 10 cs

theorem head?_toDigits_ne_minus (n : Nat) : (Nat.toDigits 10 n).head? ≠ some '-' := by
  intro hhead
  have hdigit : '-'.isDigit := Nat.isDigit_of_mem_toDigits (by decide) (by decide)
    (List.mem_of_head? hhead)
  exact absurd hdigit (by decide)

theorem readNumeral_numeral (z : Int) : readNumeral (numeral z) = z := by
  rcases lt_or_ge z 0 with hneg | hnonneg
  · rw [numeral_of_neg hneg, readNumeral, List.head?_cons, if_pos rfl, List.tail_cons,
      readDigits_toDigits (by decide) (by decide)]
    omega
  · rw [numeral_of_nonneg hnonneg, readNumeral, if_neg (head?_toDigits_ne_minus _),
      readDigits_toDigits (by decide) (by decide)]
    omega

/-- After its sign, a numeral starts with zero only if it is the numeral of zero. -/
theorem numeral_head_ne_zero {z : Int} (hz : z ≠ 0) :
    ((numeral z).dropWhile (· = '-')).head? ≠ some '0' := by
  have hdrop : ∀ n, (Nat.toDigits 10 n).dropWhile (· = '-') = Nat.toDigits 10 n := by
    intro n
    have hhead := head?_toDigits_ne_minus n
    rcases hdigits : Nat.toDigits 10 n with _ | ⟨c, cs⟩
    · rfl
    · rw [hdigits, List.head?_cons] at hhead
      rw [List.dropWhile_cons, if_neg (by simpa using hhead)]
  rcases lt_or_ge z 0 with hneg | hnonneg
  · rw [numeral_of_neg hneg, List.dropWhile_cons, if_pos (by decide), hdrop]
    exact toDigits_head_ne_zero (by decide) (by decide) (by omega)
  · rw [numeral_of_nonneg hnonneg, hdrop]
    exact toDigits_head_ne_zero (by decide) (by decide) (by omega)

end Integers

section FixedWidth

variable {base : Nat}

/-- The digits of a number at the lowest places, leading zeros included. -/
def fixedDigits (base : Nat) : Nat → Nat → List Char
  | 0, _ => []
  | width + 1, n => (n / base ^ width % base).digitChar :: fixedDigits base width n

theorem length_fixedDigits (base width n : Nat) : (fixedDigits base width n).length = width := by
  induction width with
  | zero => rfl
  | succ width ih => rw [fixedDigits, List.length_cons, ih]

theorem forall_mem_fixedDigits {P : Char → Prop} (hbase : 0 < base)
    (h : ∀ d < base, P d.digitChar) (width n : Nat) : ∀ c ∈ fixedDigits base width n, P c := by
  induction width with
  | zero => exact fun c hc => absurd hc List.not_mem_nil
  | succ width ih => exact List.forall_mem_cons.mpr ⟨h _ (Nat.mod_lt _ hbase), ih⟩

theorem fixedDigits_mod (width n : Nat) {k : Nat} (hk : width ≤ k) :
    fixedDigits base width (n % base ^ k) = fixedDigits base width n := by
  induction width with
  | zero => rfl
  | succ width ih =>
      have hdigit : n % base ^ k / base ^ width % base = n / base ^ width % base := by
        obtain ⟨j, rfl⟩ := Nat.exists_eq_add_of_lt hk
        rw [show width + j + 1 = width + (j + 1) from rfl, pow_add, Nat.mod_mul_right_div_self,
          pow_succ', Nat.mod_mul_right_mod]
      rw [fixedDigits, fixedDigits, ih (by omega), hdigit]

theorem fixedDigits_add (width width' n : Nat) : fixedDigits base (width + width') n =
    fixedDigits base width (n / base ^ width') ++ fixedDigits base width' n := by
  induction width with
  | zero => rw [Nat.zero_add]; rfl
  | succ width ih =>
      rw [show width + 1 + width' = width + width' + 1 by omega, fixedDigits, ih, fixedDigits,
        Nat.div_div_eq_div_mul, ← pow_add, Nat.add_comm width' width]
      rfl

theorem readFrom_fixedDigits (hbase : 0 < base) (hbase' : base ≤ 16) (start width n : Nat) :
    readFrom base start (fixedDigits base width n) = start * base ^ width + n % base ^ width := by
  induction width generalizing start with
  | zero => simp [fixedDigits, readFrom, Nat.mod_one]
  | succ width ih =>
      have hdigit : n / base ^ width % base < 16 := (Nat.mod_lt _ hbase).trans_le hbase'
      calc readFrom base start (fixedDigits base (width + 1) n)
        _ = readFrom base (base * start + n / base ^ width % base) (fixedDigits base width n) := by
            rw [fixedDigits, readFrom, List.foldl_cons, digitValue_digitChar hdigit]
            rfl
        _ = (base * start + n / base ^ width % base) * base ^ width + n % base ^ width := ih _
        _ = start * base ^ (width + 1) + n % base ^ (width + 1) := by
            rw [Nat.mod_pow_succ]
            ring

/-- Fixed-width digits denote the number up to their places. -/
theorem readDigits_fixedDigits (hbase : 0 < base) (hbase' : base ≤ 16) (width n : Nat) :
    readDigits base (fixedDigits base width n) = n % base ^ width := by
  rw [readDigits, readFrom_fixedDigits hbase hbase', Nat.zero_mul, Nat.zero_add]

end FixedWidth

end RiscvHypervisor.PositionalNotation
