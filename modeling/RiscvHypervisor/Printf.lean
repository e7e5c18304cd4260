import RiscvHypervisor.EffectProgram
import RiscvHypervisor.MachineTypes

/-!
The formatter of `lib/printf.c`, as programs that read the format string and
the argument slots one at a time, keep digits in a buffer and put characters on
the console.
-/

namespace RiscvHypervisor.Printf

open RiscvHypervisor.EffectProgram
open RiscvHypervisor.MachineTypes

/-- The character that ends a string. -/
def nul : Char := Char.ofNat 0

inductive PrintfOp
  /-- `fmt[i]` -/
  | fmt (i : Nat)
  /-- `va_arg`: the next slot of the argument list -/
  | vaArg
  /-- the characters from a pointer up to the terminator -/
  | string (s : Uint64)
  /-- `digits[i]` -/
  | digits (i : Nat)
  /-- `buf[i] = c` -/
  | bufWrite (i : Nat) (c : Char)
  /-- `buf[i]` -/
  | bufRead (i : Nat)
  | uartputc (c : Char)
  | acquire
  | release
  deriving DecidableEq, Repr

abbrev printfEffect : Effect where
  Op := PrintfOp
  Answer
    | .fmt _ => Char
    | .vaArg => Uint64
    | .string _ => List Char
    | .digits _ => Char
    | .bufWrite _ _ => Unit
    | .bufRead _ => Char
    | .uartputc _ => Unit
    | .acquire => Unit
    | .release => Unit

abbrev PrintfM := Program printfEffect

def fmtAt (i : Nat) : PrintfM Char := Program.perform (E := printfEffect) (.fmt i)

def vaArg : PrintfM Uint64 := Program.perform (E := printfEffect) .vaArg

def stringAt (s : Uint64) : PrintfM (List Char) := Program.perform (E := printfEffect) (.string s)

def digitAt (i : Nat) : PrintfM Char := Program.perform (E := printfEffect) (.digits i)

def bufWrite (i : Nat) (c : Char) : PrintfM Unit :=
  Program.perform (E := printfEffect) (.bufWrite i c)

def bufRead (i : Nat) : PrintfM Char := Program.perform (E := printfEffect) (.bufRead i)

def uartputc (c : Char) : PrintfM Unit := Program.perform (E := printfEffect) (.uartputc c)

def acquire : PrintfM Unit := Program.perform (E := printfEffect) .acquire

def release : PrintfM Unit := Program.perform (E := printfEffect) .release

section PrintUint

/-- The first loop of `print_uint`: the digits go to the buffer, the last one
first.  It returns the number of digits. -/
def storeDigits (base : Uint64) (hbase : 2 ≤ base.toNat) (size : Nat) (tmp : Uint64) :
    PrintfM Nat := do
  let digit ← digitAt (tmp % base).toNat
  bufWrite size digit
  if 0 < (tmp / base).toNat then
    storeDigits base hbase (size + 1) (tmp / base)
  else
    pure (size + 1)
termination_by tmp.toNat
decreasing_by
  rename_i hpos
  rw [BitVec.toNat_udiv] at hpos ⊢
  exact Nat.div_lt_self (Nat.pos_of_div_pos hpos) hbase

/-- `while (--size >= 0) uartputc(buf[size])`. -/
def putBuffer : Nat → PrintfM Unit
  | 0 => pure ()
  | size + 1 => do
      let c ← bufRead size
      uartputc c
      putBuffer size

theorem two_le_signExtend {base : Uint32} (h : ¬ base.toInt < 2) :
    2 ≤ (base.signExtend 64).toNat := by
  have hint : (base.signExtend 64).toInt = base.toInt := BitVec.toInt_signExtend_of_le (by decide)
  rw [BitVec.toInt_eq_toNat_cond] at hint
  split at hint <;> omega

/-- The base is an `int`, converted to `uint64` in the divisions. -/
def printUint (num : Uint64) (base : Uint32) : PrintfM Unit :=
  if h : base.toInt < 2 then
    .panic "invalid base (base < 2)"
  else do
    let size ← storeDigits (base.signExtend 64) (two_le_signExtend h) 0 num
    putBuffer size

end PrintUint

section PrintPadded

/-- `while (base > 1) { base /= 2; bits_in_char++; }`. -/
def bitsInChar (base : Int) : Nat := if 1 < base then bitsInChar (base / 2) + 1 else 0
termination_by base.toNat
decreasing_by omega

/-- Binary digits are split into bytes. -/
def putSeparator (bitsInChar charsForByte : Nat) (start i : Int) : PrintfM Unit :=
  if i ≠ start ∧ bitsInChar = 1 ∧ i.tmod charsForByte = 0 then uartputc '_' else pure ()

/-- The last loop of `print_padded`, with the number of rounds left. -/
def putPadded (bitsInChar charsForByte : Nat) (start : Int) : Nat → Int → Uint64 → PrintfM Unit
  | 0, _, _ => pure ()
  | rounds + 1, i, num => do
      putSeparator bitsInChar charsForByte start i
      let digit ← digitAt (num >>> (8 * 8 - bitsInChar)).toNat
      uartputc digit
      putPadded bitsInChar charsForByte start rounds (i + 1) (num <<< bitsInChar)

/-- The positions are computed in `size_t` and kept in `int`. -/
def printPadded (num : Uint64) (base bytes : Uint32) : PrintfM Unit :=
  if base ≠ 2 ∧ base ≠ 16 then
    .panic "invalid base (must be 2 or 16)"
  else
    let bits := bitsInChar base.toInt
    let charsForByte := 8 / bits
    let start := toInt ((8 - bytes.signExtend 64) * BitVec.ofNat 64 charsForByte)
    let stop := toInt (8 * BitVec.ofNat 64 charsForByte)
    let num := (List.range start.toNat).foldl (fun (num : Uint64) _ => num <<< bits) num
    putPadded bits charsForByte start (stop - start).toNat start num

end PrintPadded

section Directives

/-- The numeric routine that `PRINT_UINT` and `PRINT_INT` end with. -/
def printNumber (num : Uint64) (base length : Uint32) : PrintfM Unit :=
  if base = 2 ∨ base = 16 then
    printPadded num base length
  else
    printUint num base

/-- `PRINT_UINT`, for a variable of `w` bits and an argument of `argBits`. -/
def printUnsigned (w argBits : Nat) (base length : Uint32) : PrintfM Unit := do
  let slot ← vaArg
  let var : BitVec w := (slot.setWidth argBits).setWidth w
  printNumber (var.setWidth 64) base length

/-- `PRINT_INT`.  The negation stays in the variable, and the variable is
converted to `uint64` from its signed type. -/
def printSigned (w argBits : Nat) (base length : Uint32) : PrintfM Unit := do
  let slot ← vaArg
  let var : BitVec w := (slot.setWidth argBits).setWidth w
  if var.toInt < 0 then
    uartputc '-'
    printNumber ((-var).signExtend 64) base length
  else
    printNumber (var.signExtend 64) base length

/-- `while (*s != 0)`, over the characters before the terminator. -/
def putString : List Char → PrintfM Unit
  | [] => pure ()
  | c :: cs => do
      uartputc c
      putString cs

/-- The local variables of `printf` that outlive a round of its loop. -/
structure Cursor where
  c : Char
  i : Nat
  invalidLength : Bool
  unknownSpecifier : Bool
  deriving DecidableEq, Repr

/-- `c = fmt[++i]`. -/
def advance (s : Cursor) : PrintfM Cursor := do
  let c ← fmtAt (s.i + 1)
  pure { s with c := c, i := s.i + 1 }

/-- `decide_format` -/
def decideFormat (s : Cursor) : PrintfM (Uint32 × Cursor) :=
  if s.c = 'b' then do
    let s ← advance s
    pure (2, s)
  else if s.c = 'x' then do
    let s ← advance s
    pure (16, s)
  else
    pure (10, s)

/-- `decide_length`, from `sizeof(uint32)` on. -/
def decideLength (s : Cursor) : PrintfM (Uint32 × Cursor) :=
  if s.c = 'l' then do
    let s ← advance s
    pure (4 * 2, s)
  else if s.c = 'h' then do
    let s ← advance s
    if s.c = 'h' then
      let s ← advance s
      pure (4 / 2 / 2, s)
    else
      pure (4 / 2, s)
  else
    pure (4, s)

/-- The cases of `switch (length)`. -/
def switchLength (s : Cursor) (length : Uint32) (print : Nat → Nat → PrintfM Unit) :
    PrintfM Cursor :=
  if length = 1 then do
    print 8 32
    pure s
  else if length = 2 then do
    print 16 32
    pure s
  else if length = 4 then do
    print 32 32
    pure s
  else if length = 8 then do
    print 64 64
    pure s
  else
    pure { s with invalidLength := true }

/-- `decide_type` -/
def decideType (s : Cursor) (base length : Uint32) : PrintfM Cursor :=
  if s.c = '%' then do
    uartputc '%'
    pure s
  else if s.c = 'p' then do
    uartputc '0'
    uartputc 'x'
    let slot ← vaArg
    printPadded slot 16 8
    pure s
  else if s.c = 's' then do
    let slot ← vaArg
    let chars ← if slot = 0 then pure "(null)".toList else stringAt slot
    putString chars
    pure s
  else if s.c = 'd' then
    switchLength s length fun w argBits => printSigned w argBits base length
  else if s.c = 'u' then
    switchLength s length fun w argBits => printUnsigned w argBits base length
  else
    pure { s with unknownSpecifier := true }

/-- One round of the loop: an ordinary character or a directive. -/
def printfRound (s : Cursor) : PrintfM Cursor :=
  if s.c ≠ '%' then do
    uartputc s.c
    advance s
  else do
    let s ← advance s
    let (base, s) ← decideFormat s
    let (length, s) ← decideLength s
    let s ← decideType s base length
    advance s

/-- The loop, for a number of rounds: the variables after it, if it has ended
by then. -/
def printfLoop : Nat → Cursor → PrintfM (Option Cursor)
  | 0, s => pure (if s.c = nul then some s else none)
  | rounds + 1, s =>
      if s.c = nul then
        pure (some s)
      else do
        let s ← printfRound s
        printfLoop rounds s

/-- What follows the loop.  The lock is released before a panic, which prints. -/
def afterLoop : Option Cursor → PrintfM (Option Unit)
  | none => pure none
  | some s => do
      release
      if s.invalidLength then
        .panic "invalid length"
      else if s.unknownSpecifier then
        .panic "unknown specifier"
      else
        pure (some ())

/-- `printf`, whose loop is followed for a number of rounds. -/
def printf (rounds : Nat) (fmt : Uint64) : PrintfM (Option Unit) :=
  if fmt = 0 then
    .panic "fmt cannot not be null"
  else do
    let c ← fmtAt 0
    acquire
    let last ← printfLoop rounds ⟨c, 0, false, false⟩
    afterLoop last

end Directives

section Machine

/-- What `printf` runs on: the characters from `fmt` on, the slots of the
argument list with the number of those taken, the strings that pointers lead
to, the buffer, the console and the lock. -/
structure Console where
  fmt : Nat → Char
  args : Nat → Uint64
  taken : Nat
  strings : Uint64 → List Char
  buf : Nat → Char
  out : List Char
  held : Bool

/-- `digits`, with its terminator. -/
def digitTable : List Char := "0123456789abcdef".toList ++ [nul]

def consoleHandler : Handler printfEffect Console
  | .fmt i, t => (t.fmt i, t)
  | .vaArg, t => (t.args t.taken, { t with taken := t.taken + 1 })
  | .string s, t => (t.strings s, t)
  | .digits i, t => (digitTable.getD i nul, t)
  | .bufWrite i c, t => ((), { t with buf := Function.update t.buf i c })
  | .bufRead i, t => (t.buf i, t)
  | .uartputc c, t => ((), { t with out := t.out ++ [c] })
  | .acquire, t => ((), { t with held := true })
  | .release, t => ((), { t with held := false })

/-- A call with a format string and arguments, on a clear console. -/
def called (fmt : List Char) (args : List Uint64) : Console where
  fmt := fun i => fmt.getD i nul
  args := fun i => args.getD i 0
  taken := 0
  strings := fun _ => []
  buf := fun _ => nul
  out := []
  held := false

end Machine

end RiscvHypervisor.Printf
