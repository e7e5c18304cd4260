import RiscvHypervisor.PrintfGrammar

/-!
Decimal output of `printf`.  An unsigned argument is printed as its numeral.  A
negative one is negated in its own type first, where the least value of the
type has no counterpart.
-/

namespace RiscvHypervisor.PrintfDecimal

open RiscvHypervisor.EffectProgram
open RiscvHypervisor.MachineTypes
open RiscvHypervisor.PositionalNotation
open RiscvHypervisor.Printf
open RiscvHypervisor.PrintfOutput
open RiscvHypervisor.PrintfFormat
open RiscvHypervisor.PrintfGrammar

/-- `%d` or `%u`, with a length. -/
def decimalDirective (length : Length) (signed : Bool) : Item :=
  .directive .decimal length (if signed then .d else .u)

/-- The argument, reduced to the type of the directive. -/
def argument (length : Length) (signed : Bool) (slot : Uint64) : Int :=
  let var := slot.setWidth (8 * length.bytes)
  if signed then var.toInt else var.toNat

/-- The text that `printf` puts on the console. -/
def emitted (fmt : Uint64) (t : Console) : List Char :=
  (exec consoleHandler (printf 1 fmt) t).2.out.drop t.out.length

/-- `printf` returns, and the text on the console denotes the number. -/
structure Denotes (fmt : Uint64) (t : Console) (z : Int) : Prop where
  returns : (exec consoleHandler (printf 1 fmt) t).1 = .ok (some ())
  out : (exec consoleHandler (printf 1 fmt) t).2.out = t.out ++ numeral z
  readBack : readNumeral (emitted fmt t) = z
  noLeadingZero : z ≠ 0 → ((emitted fmt t).dropWhile (· = '-')).head? ≠ some '0'
  buffer : ∀ num base t, ∀ x ∈ accesses consoleHandler (printUint num base) t,
    ∀ i, bufIndex x.2 = some i → i < 64

section Numbers

variable {w : Nat} {var : BitVec w}

theorem toNat_signExtend_neg (hw : w ≤ 64) (hneg : var.toInt < 0) (hmin : var ≠ BitVec.intMin w) :
    ((-var).signExtend 64).toNat = (-var.toInt).toNat := by
  have hint : (-var).toInt = -var.toInt := BitVec.toInt_neg_of_ne_intMin hmin
  have hnonneg : 0 ≤ (-var).toInt := by omega
  rw [toNat_signExtend_of_nonneg hw hnonneg, ← hint, toInt_of_nonneg hnonneg, Int.toNat_natCast]

theorem toNat_signExtend_intMin (length : Length) :
    ((-BitVec.intMin (8 * length.bytes)).signExtend 64).toNat =
      (-(BitVec.intMin (8 * length.bytes)).toInt).toNat ↔ length = .l := by
  cases length <;> decide

theorem toInt_eq_min_iff (length : Length) (var : BitVec (8 * length.bytes)) :
    var.toInt = -2 ^ (8 * length.bytes - 1) ↔ var = BitVec.intMin (8 * length.bytes) := by
  have hmin : (BitVec.intMin (8 * length.bytes)).toInt = -2 ^ (8 * length.bytes - 1) := by
    cases length <;> decide
  rw [← hmin]
  exact BitVec.toInt_inj

theorem numberText_decimal (num : Uint64) (bytes : Nat) :
    numberText num 10 bytes = Nat.toDigits 10 num.toNat := rfl

theorem unsignedText_decimal {w : Nat} (hw : w ≤ 64) (slot : Uint64) (bytes : Nat) :
    unsignedText w slot 10 bytes = numeral (slot.setWidth w).toNat := by
  rw [unsignedText, numberText_decimal, numeral_of_nonneg (Int.natCast_nonneg _), Int.toNat_natCast,
    BitVec.toNat_setWidth_of_le hw]

theorem signedText_decimal_iff (length : Length) (slot : Uint64) :
    signedText (8 * length.bytes) slot 10 length.bytes =
        numeral (slot.setWidth (8 * length.bytes)).toInt ↔
      ¬ (length ≠ .l ∧ slot.setWidth (8 * length.bytes) = BitVec.intMin (8 * length.bytes)) := by
  have hw : 8 * length.bytes ≤ 64 := by cases length <;> decide
  have hnegative : (BitVec.intMin (8 * length.bytes)).toInt < 0 := by cases length <;> decide
  rw [signedText, numberText_decimal, numberText_decimal]
  generalize slot.setWidth (8 * length.bytes) = var
  split
  · rename_i hneg
    rw [numeral_of_neg hneg, List.cons.injEq, eq_self_iff_true, true_and,
      toDigits_inj (by decide) (by decide)]
    rcases Decidable.em (var = BitVec.intMin (8 * length.bytes)) with rfl | hmin
    · rw [toNat_signExtend_intMin]
      simp
    · exact iff_of_true (toNat_signExtend_neg hw hneg hmin) fun h => hmin h.2
  · rename_i hnonneg
    rw [not_lt] at hnonneg
    refine iff_of_true ?_ fun h => ?_
    · rw [numeral_of_nonneg hnonneg, toNat_signExtend_of_nonneg hw hnonneg,
        toInt_of_nonneg hnonneg, Int.toNat_natCast]
    · rw [h.2] at hnonneg
      omega

end Numbers

section Directives

/-- The least value of a type below 64 bits, for a signed directive. -/
def Overflows (length : Length) (signed : Bool) (slot : Uint64) : Prop :=
  signed = true ∧ length ≠ .l ∧ argument length signed slot = -2 ^ (8 * length.bytes - 1)

theorem text_eq_numeral_iff (length : Length) (signed : Bool) (slot : Uint64)
    (strings : Uint64 → List Char) :
    (decimalDirective length signed).text slot strings = numeral (argument length signed slot) ↔
      ¬ Overflows length signed slot := by
  cases signed with
  | false =>
      refine iff_of_true ?_ fun h => Bool.false_ne_true h.1
      have hw : 8 * length.bytes ≤ 64 := by cases length <;> decide
      exact unsignedText_decimal hw slot _
  | true =>
      have htext : (decimalDirective length true).text slot strings =
          signedText (8 * length.bytes) slot 10 length.bytes := rfl
      have hoverflows : Overflows length true slot ↔
          length ≠ .l ∧ slot.setWidth (8 * length.bytes) = BitVec.intMin (8 * length.bytes) := by
        rw [← toInt_eq_min_iff]
        exact and_iff_right rfl
      rw [htext, hoverflows]
      exact signedText_decimal_iff length slot

/-- The call prints what the directive makes of the next argument. -/
theorem denotes_iff_text {length : Length} {signed : Bool} {fmt : Uint64} (hfmt : fmt ≠ 0)
    {t : Console} (h : HoldsAt t.fmt 0 (decimalDirective length signed).chars) (z : Int) :
    Denotes fmt t z ↔
      (decimalDirective length signed).text (t.args t.taken) t.strings = numeral z := by
  have hholds : HoldsAt t.fmt 0 ([decimalDirective length signed].flatMap Item.chars) := by
    rwa [List.flatMap_singleton]
  have hloop : Prints { t with held := true } (printfLoop 1 (startOf t)) _ _ _ _ :=
    prints_printfLoop rfl hholds List.length_singleton.le
  rw [render, render, List.append_nil] at hloop
  obtain ⟨buf, hexec⟩ := exec_printf_ok hfmt hloop
  have hemitted : emitted fmt t =
      (decimalDirective length signed).text (t.args t.taken) t.strings := by
    rw [emitted, hexec]
    exact List.drop_left
  constructor
  · intro hdenotes
    have hout := hdenotes.out
    rw [hexec] at hout
    exact List.append_cancel_left hout
  · intro htext
    constructor
    · rw [hexec]
    · rw [hexec, ← htext]
    · rw [hemitted, htext, readNumeral_numeral]
    · intro hz
      rw [hemitted, htext]
      exact numeral_head_ne_zero hz
    · exact fun num base t x hx i hi => (accesses_printUint num base t x hx).2 i hi

/-- Decimal output denotes the argument, unless it is the least value of a type
below 64 bits. -/
theorem decimal_denotes_iff (length : Length) (signed : Bool) (fmt : Uint64) (hfmt : fmt ≠ 0)
    (t : Console) (h : HoldsAt t.fmt 0 (decimalDirective length signed).chars) :
    Denotes fmt t (argument length signed (t.args t.taken)) ↔
      ¬ Overflows length signed (t.args t.taken) := by
  rw [denotes_iff_text hfmt h]
  exact text_eq_numeral_iff length signed _ _

theorem decimal_denotes_minus_one :
    (1 : Uint64) ≠ 0 ∧ HoldsAt (called (decimalDirective .none true).chars [0xffffffff]).fmt 0
        (decimalDirective .none true).chars ∧
      Denotes 1 (called (decimalDirective .none true).chars [0xffffffff]) (-1) := by
  have hholds := holdsAt_called (decimalDirective .none true).chars [0xffffffff] (by decide)
  refine ⟨by decide, hholds, ?_⟩
  refine (decimal_denotes_iff .none true 1 (by decide) _ hholds).mpr ?_
  exact fun h => absurd h.2.2 (by decide)

/-- `printf("%hhd", -128)` -/
theorem decimal_misses_least :
    ¬ Denotes 1 (called (decimalDirective .hh true).chars [0x80])
      (argument .hh true 0x80) := by
  have hholds := holdsAt_called (decimalDirective .hh true).chars [0x80] (by decide)
  rw [denotes_iff_text (by decide) hholds]
  exact fun htext => (text_eq_numeral_iff .hh true 0x80 _).mp htext ⟨rfl, by decide, by decide⟩

end Directives

end RiscvHypervisor.PrintfDecimal
