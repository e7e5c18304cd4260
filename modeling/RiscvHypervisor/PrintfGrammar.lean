import RiscvHypervisor.PrintfFormat

/-!
The format strings that `lib/printf.c` documents, as sequences of ordinary
characters and directives, and what `printf` makes of them.
-/

namespace RiscvHypervisor.PrintfGrammar

open RiscvHypervisor.EffectProgram
open RiscvHypervisor.MachineTypes
open RiscvHypervisor.PositionalNotation
open RiscvHypervisor.Printf
open RiscvHypervisor.PrintfOutput
open RiscvHypervisor.PrintfFormat

section Items

inductive Format
  | decimal
  | binary
  | hex
  deriving DecidableEq, Repr

def Format.letters : Format → List Char
  | .decimal => []
  | .binary => ['b']
  | .hex => ['x']

def Format.base : Format → Uint32
  | .decimal => 10
  | .binary => 2
  | .hex => 16

inductive Length
  | l
  | none
  | h
  | hh
  deriving DecidableEq, Repr

def Length.letters : Length → List Char
  | .l => ['l']
  | .none => []
  | .h => ['h']
  | .hh => ['h', 'h']

def Length.bytes : Length → Nat
  | .l => 8
  | .none => 4
  | .h => 2
  | .hh => 1

/-- The size of the argument that `va_arg` is asked for: an argument smaller
than an `int` has been promoted to one. -/
def Length.argBits : Length → Nat
  | .l => 64
  | _ => 32

inductive Conversion
  | u
  | d
  | p
  | s
  | percent
  deriving DecidableEq, Repr

def Conversion.letter : Conversion → Char
  | .u => 'u'
  | .d => 'd'
  | .p => 'p'
  | .s => 's'
  | .percent => '%'

/-- A piece of a format string. -/
inductive Item
  | ordinary (c : Char) (h : c ≠ '%' ∧ c ≠ nul)
  | directive (format : Format) (length : Length) (type : Conversion)

def Item.chars : Item → List Char
  | .ordinary c _ => [c]
  | .directive format length type =>
      '%' :: (format.letters ++ length.letters ++ [type.letter])

/-- The number of arguments that a piece consumes. -/
def Item.taken : Item → Nat
  | .ordinary _ _ => 0
  | .directive _ _ .percent => 0
  | .directive _ _ _ => 1

/-- What a piece prints, where `slot` is the next argument.  A number is the text of
the numeric routine for the base and the length, see `prints_printSigned` and
`prints_printUnsigned`. -/
def Item.text (slot : Uint64) (strings : Uint64 → List Char) : Item → List Char
  | .ordinary c _ => [c]
  | .directive _ _ .percent => ['%']
  | .directive _ _ .s => if slot = 0 then "(null)".toList else strings slot
  | .directive _ _ .p => '0' :: 'x' :: fixedDigits 16 16 slot.toNat
  | .directive format length .d =>
      signedText (8 * length.bytes) slot format.base length.bytes
  | .directive format length .u =>
      unsignedText (8 * length.bytes) slot format.base length.bytes

/-- What a format string prints, from an argument on. -/
def render (args : Nat → Uint64) (strings : Uint64 → List Char) : Nat → List Item → List Char
  | _, [] => []
  | n, item :: items =>
      item.text (args n) strings ++ render args strings (n + item.taken) items

end Items

section Rounds

variable {t : Console} {s : Cursor}

theorem takeFormat_chars (format : Format) (length : Length) (type : Conversion)
    (rest : List Char) :
    takeFormat (format.letters ++ length.letters ++ type.letter :: rest) =
      (format.base, length.letters ++ type.letter :: rest) := by
  cases format <;> cases length <;> cases type <;> rfl

theorem takeLength_chars (length : Length) (type : Conversion) (rest : List Char) :
    takeLength (length.letters ++ type.letter :: rest) = (length.bytes, type.letter :: rest) := by
  cases length <;> cases type <;> rfl

theorem typeText_letter (slot : Uint64) (strings : Uint64 → List Char) (format : Format)
    (length : Length) (type : Conversion) :
    typeText slot strings type.letter format.base length.bytes =
      (Item.directive format length type).text slot strings := by
  cases type <;> rfl

theorem typeTaken_letter (format : Format) (length : Length) (type : Conversion) :
    typeTaken type.letter = (Item.directive format length type).taken := by
  cases type <;> rfl

theorem isType_letter (type : Conversion) : isType type.letter = true := by
  cases type <;> rfl

/-- One round of the loop is one piece of the format string. -/
theorem prints_item (t : Console) (item : Item) {rest : List Char} (hc : s.c = t.fmt s.i)
    (h : HoldsAt t.fmt s.i (item.chars ++ rest)) :
    HoldsAt t.fmt (s.i + item.chars.length) rest ∧ s.c ≠ nul ∧
      Prints t (printfRound s) (moved t.fmt s item.chars.length)
        (item.text (t.args t.taken) t.strings) item.taken
        (List.range' (s.i + 1) item.chars.length) := by
  cases item with
  | ordinary c hordinary =>
      have hhead : s.c = c := hc.trans h.1
      refine ⟨h.2.2, hhead ▸ hordinary.2, ?_⟩
      subst hhead
      exact prints_ordinary t hordinary.1
  | directive format length type =>
      have hhead : s.c = '%' := hc.trans h.1
      have hafter : HoldsAt t.fmt (s.i + 1)
          (format.letters ++ length.letters ++ type.letter :: rest) := by
        rw [← List.singleton_append, ← List.append_assoc]
        exact h.2.2
      obtain ⟨k, hk, hholds, hprints⟩ := prints_directive t hhead hafter
      rw [takeFormat_chars, takeLength_chars] at hk hholds hprints
      have hletter : t.fmt (s.i + k) = type.letter := hholds.1
      have hlength : (Item.directive format length type).chars.length = k + 1 := by
        simp only [Item.chars, List.length_cons, List.length_append, List.length_nil] at hk ⊢
        omega
      have hflagged : flagged (moved t.fmt s k) = moved t.fmt s k :=
        flagged_of_isType ((congrArg isType hletter).trans (isType_letter type))
      refine ⟨?_, hhead ▸ by decide, ?_⟩
      · rw [hlength]
        exact hholds.2.2
      · rw [hletter, hflagged, typeText_letter, typeTaken_letter format length, moved_moved] at hprints
        rw [hlength]
        exact hprints

/-- The loop goes through the format string piece by piece, up to the terminator. -/
theorem prints_printfLoop {items : List Item} (hc : s.c = t.fmt s.i)
    (h : HoldsAt t.fmt s.i (items.flatMap Item.chars)) {rounds : Nat}
    (hrounds : items.length ≤ rounds) :
    Prints t (printfLoop rounds s)
      (some (moved t.fmt s (items.flatMap Item.chars).length))
      (render t.args t.strings t.taken items) (items.map Item.taken).sum
      (List.range' (s.i + 1) (items.flatMap Item.chars).length) := by
  induction items generalizing t s rounds with
  | nil =>
      have hnul : s.c = nul := hc.trans h
      have hloop : printfLoop rounds s = pure (some s) := by
        cases rounds <;> rw [printfLoop, if_pos hnul]
      rw [hloop, List.flatMap_nil, List.length_nil, moved_zero hc]
      exact prints_pure t (some s)
  | cons item items ih =>
      obtain ⟨rounds, rfl⟩ := Nat.exists_eq_add_of_le' (Nat.one_le_of_lt hrounds)
      rw [List.flatMap_cons] at h ⊢
      obtain ⟨hrest, hne, hround⟩ := prints_item t item hc h
      have hloop : ∀ t', Follows t t' item.taken →
          Prints t' (printfLoop rounds (moved t.fmt s item.chars.length))
            (some (moved t.fmt s (item.chars.length + (items.flatMap Item.chars).length)))
            (render t.args t.strings (t.taken + item.taken) items) (items.map Item.taken).sum
            (List.range' (s.i + item.chars.length + 1) (items.flatMap Item.chars).length) := by
        intro t' hfollows
        rw [← moved_moved, ← hfollows.fmt, ← hfollows.args, ← hfollows.strings, ← hfollows.taken]
        refine ih rfl ?_ (by simpa using hrounds)
        rw [hfollows.fmt]
        exact hrest
      have hbind := hround.bind hloop
      rw [Nat.add_right_comm, List.range'_append_1, ← List.length_append] at hbind
      rw [printfLoop, if_neg hne]
      exact hbind

end Rounds

/-- `printf` implements the documented grammar. -/
theorem printf_renders (items : List Item) (fmt : Uint64) (hfmt : fmt ≠ 0) (t : Console)
    (h : HoldsAt t.fmt 0 (items.flatMap Item.chars)) (rounds : Nat)
    (hrounds : items.length ≤ rounds) :
    ∃ buf, exec consoleHandler (printf rounds fmt) t =
      (.ok (some ()),
        { t with
          buf := buf
          out := t.out ++ render t.args t.strings t.taken items
          taken := t.taken + (items.map Item.taken).sum
          held := false }) := by
  have hloop : Prints { t with held := true } (printfLoop rounds (startOf t)) _ _ _ _ :=
    prints_printfLoop rfl h hrounds
  exact exec_printf_ok hfmt hloop

section Sample

/-- `v=%xhhu%%` -/
def sampleItems : List Item :=
  [.ordinary 'v' (by decide), .ordinary '=' (by decide), .directive .hex .hh .u,
    .directive .decimal .none .percent]

theorem printf_renders_sample :
    (1 : Uint64) ≠ 0 ∧
      HoldsAt (called (sampleItems.flatMap Item.chars) [0x1ff]).fmt 0
        (sampleItems.flatMap Item.chars) ∧
      sampleItems.length ≤ 4 ∧
      ∃ buf, exec consoleHandler (printf 4 1) (called (sampleItems.flatMap Item.chars) [0x1ff]) =
        (.ok (some ()),
          { called (sampleItems.flatMap Item.chars) [0x1ff] with
            buf := buf
            out := render (fun i => [0x1ff].getD i 0) (fun _ => []) 0 sampleItems
            taken := 1 }) := by
  have hholds := holdsAt_called (sampleItems.flatMap Item.chars) [0x1ff] (by decide)
  exact ⟨by decide, hholds, by decide,
    printf_renders sampleItems 1 (by decide) _ hholds 4 (by decide)⟩

end Sample

end RiscvHypervisor.PrintfGrammar
