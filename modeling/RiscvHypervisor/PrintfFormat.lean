import RiscvHypervisor.PrintfOutput

/-!
The rounds of `printf`.  A round takes one ordinary character or one directive
off the format string; a directive is a format letter, a length and a type, each
as long as it can be.
-/

namespace RiscvHypervisor.PrintfFormat

open RiscvHypervisor.EffectProgram
open RiscvHypervisor.MachineTypes
open RiscvHypervisor.PositionalNotation
open RiscvHypervisor.Printf
open RiscvHypervisor.PrintfOutput

section Scanning

/-- The characters stand at the index, followed by the terminator. -/
def HoldsAt (fmt : Nat → Char) (i : Nat) : List Char → Prop
  | [] => fmt i = nul
  | c :: cs => fmt i = c ∧ c ≠ nul ∧ HoldsAt fmt (i + 1) cs

/-- The base that a format letter chooses, and what follows the letter. -/
def takeFormat : List Char → Uint32 × List Char
  | [] => (10, [])
  | c :: cs => if c = 'b' then (2, cs) else if c = 'x' then (16, cs) else (10, c :: cs)

/-- The bytes that one or two `h` choose, after the first. -/
def takeShort : List Char → Nat × List Char
  | [] => (2, [])
  | c :: cs => if c = 'h' then (1, cs) else (2, c :: cs)

/-- The bytes that the length letters choose, and what follows them. -/
def takeLength : List Char → Nat × List Char
  | [] => (4, [])
  | c :: cs => if c = 'l' then (8, cs) else if c = 'h' then takeShort cs else (4, c :: cs)

/-- The cursor some characters further on. -/
def moved (fmt : Nat → Char) (s : Cursor) (k : Nat) : Cursor :=
  { s with c := fmt (s.i + k), i := s.i + k }

variable {t : Console} {s : Cursor} {cs : List Char}

theorem moved_moved (fmt : Nat → Char) (s : Cursor) (k k' : Nat) :
    moved fmt (moved fmt s k) k' = moved fmt s (k + k') := by
  simp only [moved, Nat.add_assoc]

theorem moved_zero {fmt : Nat → Char} (h : s.c = fmt s.i) : moved fmt s 0 = s := by
  simp only [moved, Nat.add_zero, ← h]

/-- A program scans when it reads the characters that follow the cursor, one
after the other. -/
theorem Prints.bind_scan {α β : Type} {p : PrintfM α} {f : α → PrintfM β} {a : α} {b : β}
    {text : List Char} {taken i k k' : Nat} (hp : Prints t p a [] 0 (List.range' (i + 1) k))
    (hf : ∀ t', Follows t t' 0 → Prints t' (f a) b text taken (List.range' (i + k + 1) k')) :
    Prints t (p >>= f) b text taken (List.range' (i + 1) (k + k')) := by
  have h := hp.bind hf
  rw [List.nil_append, Nat.zero_add, Nat.add_right_comm i k 1] at h
  rwa [List.range'_append_1] at h

theorem prints_advance (t : Console) (s : Cursor) :
    Prints t (advance s) (moved t.fmt s 1) [] 0 (List.range' (s.i + 1) 1) := by
  have h := (prints_fmtAt t (s.i + 1)).map fun c => ({ s with c := c, i := s.i + 1 } : Cursor)
  exact h

/-- The rule for a program followed by `c = fmt[++i]`. -/
theorem Prints.bind_advance {p : PrintfM Cursor} {text : List Char} {taken : Nat}
    (hp : Prints t p s text taken []) :
    Prints t (p >>= advance) (moved t.fmt s 1) text taken (List.range' (s.i + 1) 1) := by
  have hadvance : ∀ t', Follows t t' taken →
      Prints t' (advance s) (moved t.fmt s 1) [] 0 (List.range' (s.i + 1) 1) := by
    intro t' hfollows
    rw [← hfollows.fmt]
    exact prints_advance t' s
  have h := hp.bind hadvance
  rwa [List.append_nil, List.nil_append] at h

/-- The program scans some characters of the format string, and returns what
it makes of them. -/
def Scans {α : Type} (fmt : Nat → Char) (s : Cursor) (p : PrintfM (α × Cursor)) (cs : List Char)
    (result : α × List Char) : Prop :=
  ∃ k, k + result.2.length = cs.length ∧ HoldsAt fmt (s.i + k) result.2 ∧
    ∀ t : Console, t.fmt = fmt →
      Prints t p (result.1, moved fmt s k) [] 0 (List.range' (s.i + 1) k)

variable {fmt : Nat → Char}

theorem scans_none {α : Type} (hc : s.c = fmt s.i) (h : HoldsAt fmt s.i cs) (a : α) :
    Scans fmt s (pure (a, s)) cs (a, cs) := by
  refine ⟨0, Nat.zero_add _, h, fun t _ => ?_⟩
  rw [moved_zero hc]
  exact prints_pure t (a, s)

theorem scans_advance {α : Type} {c : Char} {f : Cursor → PrintfM (α × Cursor)}
    {result : α × List Char} (hf : Scans fmt (moved fmt s 1) (f (moved fmt s 1)) cs result) :
    Scans fmt s (advance s >>= f) (c :: cs) result := by
  obtain ⟨k, hk, hholds, hprints⟩ := hf
  refine ⟨1 + k, by rw [List.length_cons]; omega, ?_, ?_⟩
  · rwa [← Nat.add_assoc]
  · rintro t rfl
    refine Prints.bind_scan (prints_advance t s) fun t' hfollows => ?_
    rw [← moved_moved]
    exact hprints t' hfollows.fmt

theorem scans_one {α : Type} {c : Char} (h : HoldsAt fmt s.i (c :: cs)) (a : α) :
    Scans fmt s (advance s >>= fun s => pure (a, s)) (c :: cs) (a, cs) :=
  scans_advance (scans_none rfl h.2.2 a)

theorem scans_decideFormat (hc : s.c = fmt s.i) (h : HoldsAt fmt s.i cs) :
    Scans fmt s (decideFormat s) cs (takeFormat cs) := by
  unfold decideFormat
  cases cs with
  | nil =>
      have hnul : s.c = nul := hc.trans h
      rw [hnul]
      exact scans_none hc h 10
  | cons c cs =>
      have hhead : s.c = c := hc.trans h.1
      rw [hhead, takeFormat]
      split
      · exact scans_one h 2
      · split
        · exact scans_one h 16
        · exact scans_none hc h 10

theorem scans_decideShort (hc : s.c = fmt s.i) (h : HoldsAt fmt s.i cs) :
    Scans fmt s
      (if s.c = 'h' then do
        let s ← advance s
        pure ((4 / 2 / 2 : Uint32), s)
      else
        pure (4 / 2, s)) cs (BitVec.ofNat 32 (takeShort cs).1, (takeShort cs).2) := by
  cases cs with
  | nil =>
      have hnul : s.c = nul := hc.trans h
      rw [hnul]
      exact scans_none hc h (4 / 2)
  | cons c cs =>
      have hhead : s.c = c := hc.trans h.1
      rw [hhead, takeShort]
      split
      · exact scans_one h (4 / 2 / 2)
      · exact scans_none hc h (4 / 2)

theorem scans_decideLength (hc : s.c = fmt s.i) (h : HoldsAt fmt s.i cs) :
    Scans fmt s (decideLength s) cs (BitVec.ofNat 32 (takeLength cs).1, (takeLength cs).2) := by
  unfold decideLength
  cases cs with
  | nil =>
      have hnul : s.c = nul := hc.trans h
      rw [hnul]
      exact scans_none hc h 4
  | cons c cs =>
      have hhead : s.c = c := hc.trans h.1
      rw [hhead, takeLength]
      split
      · exact scans_one h (4 * 2)
      · split
        · exact scans_advance (scans_decideShort rfl h.2.2)
        · exact scans_none hc h 4

/-- The format string of a call is read as it was given. -/
theorem holdsAt_called (cs : List Char) (args : List Uint64) (hcs : nul ∉ cs) :
    HoldsAt (called cs args).fmt 0 cs := by
  have hgeneral : ∀ (rest read : List Char), nul ∉ rest →
      HoldsAt (called (read ++ rest) args).fmt read.length rest := by
    intro rest
    induction rest with
    | nil =>
        intro read _
        simp [HoldsAt, called]
    | cons c rest ih =>
        intro read hrest
        rw [List.mem_cons, not_or] at hrest
        refine ⟨by simp [called], Ne.symm hrest.1, ?_⟩
        have hnext := ih (read ++ [c]) hrest.2
        rwa [List.append_assoc, List.singleton_append, List.length_append] at hnext
  exact hgeneral cs [] hcs

end Scanning

section Types

/-- The output of the numeric routine for a base and a number of bytes. -/
def numberText (num : Uint64) (base : Uint32) (bytes : Nat) : List Char :=
  if base = 2 then
    ['_'].intercalate (byteGroups bytes (num <<< (8 * (8 - bytes))))
  else if base = 16 then
    fixedDigits 16 (2 * bytes) num.toNat
  else
    Nat.toDigits base.toNat num.toNat

def unsignedText (w : Nat) (slot : Uint64) (base : Uint32) (bytes : Nat) : List Char :=
  numberText ((slot.setWidth w).setWidth 64) base bytes

/-- The sign, and the variable after it has been negated in its own type. -/
def signedText (w : Nat) (slot : Uint64) (base : Uint32) (bytes : Nat) : List Char :=
  if (slot.setWidth w).toInt < 0 then
    '-' :: numberText ((-slot.setWidth w).signExtend 64) base bytes
  else
    numberText ((slot.setWidth w).signExtend 64) base bytes

def IsBase (base : Uint32) : Prop := base = 2 ∨ base = 10 ∨ base = 16

def IsLength (bytes : Nat) : Prop := bytes = 1 ∨ bytes = 2 ∨ bytes = 4 ∨ bytes = 8

variable {t : Console} {base : Uint32} {bytes : Nat}

theorem prints_printNumber (t : Console) (num : Uint64) (hbase : IsBase base) (hlow : 1 ≤ bytes)
    (hhigh : bytes ≤ 8) : Prints t (printNumber num base (BitVec.ofNat 32 bytes)) ()
      (numberText num base bytes) 0 [] := by
  rcases hbase with rfl | rfl | rfl
  · exact prints_printPadded_binary t num hlow hhigh
  · exact prints_printUint t num 10 (by decide) (by decide)
  · exact prints_printPadded_hex t num hhigh

/-- The rule for a program that takes the next argument. -/
theorem prints_vaArg_bind {α : Type} {f : Uint64 → PrintfM α} {a : α} {text : List Char}
    {reads : List Nat}
    (hf : ∀ t', Follows t t' 1 → Prints t' (f (t.args t.taken)) a text 0 reads) :
    Prints t (vaArg >>= f) a text 1 reads :=
  (prints_vaArg t).bind hf

theorem prints_printUnsigned {w argBits : Nat} (hw : w ≤ argBits) (hbase : IsBase base)
    (hlow : 1 ≤ bytes) (hhigh : bytes ≤ 8) :
    Prints t (printUnsigned w argBits base (BitVec.ofNat 32 bytes)) ()
      (unsignedText w (t.args t.taken) base bytes) 1 [] := by
  refine prints_vaArg_bind fun t' _ => ?_
  simp only
  rw [BitVec.setWidth_setWidth_of_le _ hw]
  exact prints_printNumber t' _ hbase hlow hhigh

theorem prints_printSigned {w argBits : Nat} (hw : w ≤ argBits) (hbase : IsBase base)
    (hlow : 1 ≤ bytes) (hhigh : bytes ≤ 8) :
    Prints t (printSigned w argBits base (BitVec.ofNat 32 bytes)) ()
      (signedText w (t.args t.taken) base bytes) 1 [] := by
  refine prints_vaArg_bind fun t' _ => ?_
  simp only
  rw [BitVec.setWidth_setWidth_of_le _ hw, signedText]
  split
  · refine (prints_uartputc t' '-').bind_text fun t'' _ => ?_
    exact prints_printNumber t'' _ hbase hlow hhigh
  · exact prints_printNumber t' _ hbase hlow hhigh

theorem prints_switchLength {s : Cursor} {print : Nat → Nat → PrintfM Unit} {text : List Char}
    (hbytes : IsLength bytes)
    (hprint : ∀ argBits, 8 * bytes ≤ argBits → Prints t (print (8 * bytes) argBits) () text 1 []) :
    Prints t (switchLength s (BitVec.ofNat 32 bytes) print) s text 1 [] := by
  rcases hbytes with rfl | rfl | rfl | rfl
  · exact (hprint 32 (by decide)).map fun _ => s
  · exact (hprint 32 (by decide)).map fun _ => s
  · exact (hprint 32 (by decide)).map fun _ => s
  · exact (hprint 64 (by decide)).map fun _ => s

/-- What a directive prints, by its type letter. -/
def typeText (slot : Uint64) (strings : Uint64 → List Char) (c : Char) (base : Uint32)
    (bytes : Nat) : List Char :=
  if c = '%' then
    ['%']
  else if c = 'p' then
    '0' :: 'x' :: fixedDigits 16 16 slot.toNat
  else if c = 's' then
    if slot = 0 then "(null)".toList else strings slot
  else if c = 'd' then
    signedText (8 * bytes) slot base bytes
  else if c = 'u' then
    unsignedText (8 * bytes) slot base bytes
  else
    []

def typeTaken (c : Char) : Nat := if c = 'p' ∨ c = 's' ∨ c = 'd' ∨ c = 'u' then 1 else 0

def isType (c : Char) : Bool := c = '%' ∨ c = 'p' ∨ c = 's' ∨ c = 'd' ∨ c = 'u'

/-- The cursor after a type letter. -/
def flagged (s : Cursor) : Cursor :=
  { s with unknownSpecifier := s.unknownSpecifier || !isType s.c }

theorem flagged_of_isType {s : Cursor} (h : isType s.c = true) : flagged s = s := by
  rw [flagged, h, Bool.not_true, Bool.or_false]

/-- Whatever the type letter is, its case returns. -/
theorem prints_decideType (t : Console) (s : Cursor) (hbase : IsBase base)
    (hbytes : IsLength bytes) : Prints t (decideType s base (BitVec.ofNat 32 bytes)) (flagged s)
      (typeText (t.args t.taken) t.strings s.c base bytes) (typeTaken s.c) [] := by
  have hlow : 1 ≤ bytes := by rcases hbytes with rfl | rfl | rfl | rfl <;> decide
  have hhigh : bytes ≤ 8 := by rcases hbytes with rfl | rfl | rfl | rfl <;> decide
  unfold decideType typeText
  split
  · rename_i hc
    rw [flagged_of_isType (by simp [isType, hc]), hc]
    exact (prints_uartputc t '%').map fun _ => s
  · split
    · rename_i hc
      rw [flagged_of_isType (by simp [isType, hc]), hc]
      refine (prints_uartputc t '0').bind_text fun t₁ h₁ => ?_
      refine (prints_uartputc t₁ 'x').bind_text fun t₂ h₂ => ?_
      have hslot : t₂.args t₂.taken = t.args t.taken := by
        rw [h₂.args, h₂.taken, h₁.args, h₁.taken]
        rfl
      refine prints_vaArg_bind fun t₃ _ => ?_
      rw [hslot]
      exact (prints_printPadded_hex t₃ _ (by decide)).map fun _ => s
    · split
      · rename_i hc
        rw [flagged_of_isType (by simp [isType, hc]), hc]
        refine prints_vaArg_bind fun t₁ h₁ => ?_
        dsimp only
        split
        · exact (prints_putString t₁ _).map fun _ => s
        · rw [← h₁.strings]
          refine (prints_stringAt t₁ _).bind_silent fun t₂ _ => ?_
          exact (prints_putString t₂ _).map fun _ => s
      · split
        · rename_i hc
          rw [flagged_of_isType (by simp [isType, hc]), hc]
          exact prints_switchLength hbytes fun _ hle => prints_printSigned hle hbase hlow hhigh
        · split
          · rename_i hc
            rw [flagged_of_isType (by simp [isType, hc]), hc]
            exact prints_switchLength hbytes fun _ hle => prints_printUnsigned hle hbase hlow hhigh
          · rename_i hpercent hp hs hd hu
            have hflagged : flagged s = { s with unknownSpecifier := true } := by
              simp [flagged, isType, hpercent, hp, hs, hd, hu]
            have htaken : typeTaken s.c = 0 := by
              simp [typeTaken, hp, hs, hd, hu]
            rw [hflagged, htaken]
            exact prints_pure t _

end Types

section Rounds

variable {t : Console} {s : Cursor}

theorem isBase_takeFormat (cs : List Char) : IsBase (takeFormat cs).1 := by
  unfold takeFormat IsBase
  split
  · simp
  · split
    · simp
    · split <;> simp

theorem isLength_takeLength (cs : List Char) : IsLength (takeLength cs).1 := by
  unfold takeLength takeShort IsLength
  split
  · simp
  · split
    · simp
    · split
      · split
        · simp
        · split <;> simp
      · simp

theorem prints_ordinary (t : Console) (hc : s.c ≠ '%') :
    Prints t (printfRound s) (moved t.fmt s 1) [s.c] 0 (List.range' (s.i + 1) 1) := by
  rw [printfRound, if_pos hc]
  exact Prints.bind_advance ((prints_uartputc t s.c).map fun _ => s)

/-- A directive, up to the character after its type letter. -/
theorem prints_directive {cs : List Char} (t : Console) (hc : s.c = '%')
    (h : HoldsAt t.fmt (s.i + 1) cs) :
    ∃ k, k + (takeLength (takeFormat cs).2).2.length = cs.length + 1 ∧
      HoldsAt t.fmt (s.i + k) (takeLength (takeFormat cs).2).2 ∧
      Prints t (printfRound s) (moved t.fmt (flagged (moved t.fmt s k)) 1)
        (typeText (t.args t.taken) t.strings (t.fmt (s.i + k)) (takeFormat cs).1
          (takeLength (takeFormat cs).2).1) (typeTaken (t.fmt (s.i + k)))
        (List.range' (s.i + 1) (k + 1)) := by
  have hscan₁ : Scans t.fmt (moved t.fmt s 1) (decideFormat (moved t.fmt s 1)) cs
      (takeFormat cs) := scans_decideFormat rfl h
  obtain ⟨k₁, hk₁, hholds₁, hprints₁⟩ := hscan₁
  generalize hs₁ : moved t.fmt (moved t.fmt s 1) k₁ = s₁ at hprints₁
  have hi₁ : s₁.i = s.i + 1 + k₁ := by rw [← hs₁]; rfl
  have hc₁ : s₁.c = t.fmt s₁.i := by rw [← hs₁]; rfl
  obtain ⟨k₂, hk₂, hholds₂, hprints₂⟩ := scans_decideLength hc₁ (by rw [hi₁]; exact hholds₁)
  have hcount : s₁.i + k₂ = s.i + (1 + k₁ + k₂) := by omega
  have hs₂ : moved t.fmt s₁ k₂ = moved t.fmt s (1 + k₁ + k₂) := by
    rw [← hs₁, moved_moved, moved_moved, Nat.add_assoc]
  rw [hcount] at hholds₂
  refine ⟨1 + k₁ + k₂, ?_, hholds₂, ?_⟩
  · have hlength : k₂ + (takeLength (takeFormat cs).2).2.length = (takeFormat cs).2.length := hk₂
    omega
  · rw [printfRound, if_neg (not_not.mpr hc), show 1 + k₁ + k₂ + 1 = 1 + (k₁ + (k₂ + 1)) by omega]
    refine Prints.bind_scan (prints_advance t s) fun t₁ h₁ => ?_
    refine Prints.bind_scan (hprints₁ t₁ h₁.fmt) fun t₂ h₂ => ?_
    rw [← hi₁]
    refine Prints.bind_scan (hprints₂ t₂ (h₂.fmt.trans h₁.fmt)) fun t₃ h₃ => ?_
    have hfollows := (h₁.trans h₂).trans h₃
    have htype := prints_decideType t₃ (moved t.fmt s (1 + k₁ + k₂)) (isBase_takeFormat cs)
      (isLength_takeLength (takeFormat cs).2)
    rw [hs₂, hcount]
    rw [hfollows.args, hfollows.strings, hfollows.taken] at htype
    have hround := Prints.bind_advance htype
    rw [hfollows.fmt] at hround
    exact hround

/-- The cursor before the loop. -/
def startOf (t : Console) : Cursor := ⟨t.fmt 0, 0, false, false⟩

theorem exec_printf {fmt : Uint64} (hfmt : fmt ≠ 0) (rounds : Nat) (t : Console) :
    exec consoleHandler (printf rounds fmt) t =
      exec consoleHandler (printfLoop rounds (startOf t) >>= afterLoop)
        { t with held := true } := by
  rw [printf, if_neg hfmt]
  rfl

/-- A loop that ends without a complaint, and the call around it. -/
theorem exec_printf_ok {fmt : Uint64} (hfmt : fmt ≠ 0) {rounds k taken : Nat} {text : List Char}
    {reads : List Nat} (hloop : Prints { t with held := true } (printfLoop rounds (startOf t))
      (some (moved t.fmt (startOf t) k)) text taken reads) :
    ∃ buf, exec consoleHandler (printf rounds fmt) t =
      (.ok (some ()),
        { t with
          buf := buf
          out := t.out ++ text
          taken := t.taken + taken
          held := false }) := by
  obtain ⟨buf, hexec⟩ := hloop.run
  refine ⟨buf, ?_⟩
  rw [exec_printf hfmt, exec_bind_ok consoleHandler hexec]
  rfl

theorem fmtReads_printf {fmt : Uint64} (hfmt : fmt ≠ 0) (rounds : Nat) (t : Console) :
    fmtReads (printf rounds fmt) t =
      0 :: fmtReads (printfLoop rounds (startOf t) >>= afterLoop) { t with held := true } := by
  rw [printf, if_neg hfmt]
  rfl

end Rounds

end RiscvHypervisor.PrintfFormat
