import RiscvHypervisor.PositionalNotation
import RiscvHypervisor.Printf

/-!
What the numeric routines of `lib/printf.c` put on the console: `print_uint`
the numeral of the number, `print_padded` the digits of its lowest bytes.
-/

namespace RiscvHypervisor.PrintfOutput

open RiscvHypervisor.EffectProgram
open RiscvHypervisor.MachineTypes
open RiscvHypervisor.PositionalNotation
open RiscvHypervisor.Printf

section Prints

variable {α β : Type}

def fmtIndex : PrintfOp → Option Nat
  | .fmt i => some i
  | _ => none

/-- The indices at which a program reads the format string. -/
def fmtReads (p : PrintfM α) (t : Console) : List Nat :=
  (accesses consoleHandler p t).filterMap fun x => fmtIndex x.2

/-- The program returns the result; it has put the text on the console, taken
some arguments, read the format string at the indices, and used the buffer. -/
structure Prints (t : Console) (p : PrintfM α) (a : α) (text : List Char) (taken : Nat)
    (reads : List Nat) : Prop where
  run : ∃ buf, exec consoleHandler p t =
    (.ok a, { t with buf := buf, out := t.out ++ text, taken := t.taken + taken })
  reads : fmtReads p t = reads

/-- The input of `printf` after some arguments have been taken. -/
structure Follows (t t' : Console) (taken : Nat) : Prop where
  fmt : t'.fmt = t.fmt
  args : t'.args = t.args
  strings : t'.strings = t.strings
  taken : t'.taken = t.taken + taken

variable {t : Console} {taken taken' : Nat}

theorem Follows.trans {t' t'' : Console} (h : Follows t t' taken) (h' : Follows t' t'' taken') :
    Follows t t'' (taken + taken') where
  fmt := h'.fmt.trans h.fmt
  args := h'.args.trans h.args
  strings := h'.strings.trans h.strings
  taken := by rw [h'.taken, h.taken, Nat.add_assoc]

theorem fmtReads_bind {p : PrintfM α} {f : α → PrintfM β} {t' : Console} {a : α}
    (h : exec consoleHandler p t = (.ok a, t')) :
    fmtReads (p >>= f) t = fmtReads p t ++ fmtReads (f a) t' := by
  simp only [fmtReads, accesses_bind_ok consoleHandler h, List.filterMap_append]

theorem fmtReads_of_uses {p : PrintfM α} (h : p.Uses fun op => fmtIndex op = none) (t : Console) :
    fmtReads p t = [] :=
  List.filterMap_eq_nil_iff.mpr (forall_mem_accesses_of_uses h t)

theorem Prints.bind {p : PrintfM α} {f : α → PrintfM β} {a : α} {b : β} {text text' : List Char}
    {reads reads' : List Nat} (hp : Prints t p a text taken reads)
    (hf : ∀ t', Follows t t' taken → Prints t' (f a) b text' taken' reads') :
    Prints t (p >>= f) b (text ++ text') (taken + taken') (reads ++ reads') := by
  obtain ⟨buf, hexec⟩ := hp.run
  have hfollows : Follows t { t with buf := buf, out := t.out ++ text, taken := t.taken + taken }
      taken := ⟨rfl, rfl, rfl, rfl⟩
  obtain ⟨⟨buf', hexec'⟩, hreads⟩ := hf _ hfollows
  constructor
  · refine ⟨buf', ?_⟩
    rw [exec_bind_ok consoleHandler hexec, hexec']
    simp only [List.append_assoc, Nat.add_assoc]
  · rw [fmtReads_bind hexec, hp.reads, hreads]

/-- The rule for a program that only puts characters on the console. -/
theorem Prints.bind_text {p : PrintfM α} {f : α → PrintfM β} {a : α} {b : β}
    {text text' : List Char} {reads : List Nat} (hp : Prints t p a text 0 [])
    (hf : ∀ t', Follows t t' 0 → Prints t' (f a) b text' taken reads) :
    Prints t (p >>= f) b (text ++ text') taken reads := by
  have h := hp.bind hf
  rwa [List.nil_append, Nat.zero_add] at h

theorem Prints.bind_silent {p : PrintfM α} {f : α → PrintfM β} {a : α} {b : β} {text : List Char}
    {reads : List Nat} (hp : Prints t p a [] 0 [])
    (hf : ∀ t', Follows t t' 0 → Prints t' (f a) b text taken reads) :
    Prints t (p >>= f) b text taken reads :=
  hp.bind_text hf

theorem prints_pure (t : Console) (a : α) : Prints t (pure a : PrintfM α) a [] 0 [] := by
  refine ⟨⟨t.buf, ?_⟩, rfl⟩
  simp

theorem Prints.map {p : PrintfM α} {a : α} {text : List Char} {reads : List Nat}
    (hp : Prints t p a text taken reads) (f : α → β) :
    Prints t (p >>= fun a => pure (f a)) (f a) text taken reads := by
  have h := hp.bind (f := fun a => pure (f a)) fun t' _ => prints_pure t' (f a)
  rwa [List.append_nil, List.append_nil, Nat.add_zero] at h

theorem prints_uartputc (t : Console) (c : Char) : Prints t (uartputc c) () [c] 0 [] :=
  ⟨⟨t.buf, rfl⟩, rfl⟩

theorem prints_vaArg (t : Console) : Prints t vaArg (t.args t.taken) [] 1 [] := by
  refine ⟨⟨t.buf, ?_⟩, rfl⟩
  rw [List.append_nil]
  rfl

theorem prints_fmtAt (t : Console) (i : Nat) : Prints t (fmtAt i) (t.fmt i) [] 0 [i] := by
  refine ⟨⟨t.buf, ?_⟩, rfl⟩
  rw [List.append_nil]
  rfl

theorem prints_stringAt (t : Console) (s : Uint64) :
    Prints t (stringAt s) (t.strings s) [] 0 [] := by
  refine ⟨⟨t.buf, ?_⟩, rfl⟩
  rw [List.append_nil]
  rfl

theorem digitTable_eq {d : Nat} (h : d < 16) : digitTable.getD d nul = d.digitChar := by
  have hall : ∀ d : Fin 16, digitTable.getD d.val nul = d.val.digitChar := by decide
  exact hall ⟨d, h⟩

theorem prints_digitAt (t : Console) {d : Nat} (h : d < 16) :
    Prints t (digitAt d) d.digitChar [] 0 [] := by
  refine ⟨⟨t.buf, ?_⟩, rfl⟩
  rw [List.append_nil, ← digitTable_eq h]
  rfl

theorem prints_putString (t : Console) (cs : List Char) : Prints t (putString cs) () cs 0 [] := by
  induction cs generalizing t with
  | nil => exact prints_pure t ()
  | cons c cs ih => exact (prints_uartputc t c).bind_text fun t' _ => ih t'

end Prints

section PrintUint

def bufIndex : PrintfOp → Option Nat
  | .bufWrite i _ => some i
  | .bufRead i => some i
  | _ => none

/-- The access does not read the format string, and in the buffer it stays
below the bound. -/
def Below (bound : Nat) (op : PrintfOp) : Prop :=
  fmtIndex op = none ∧ ∀ i, bufIndex op = some i → i < bound

variable {base : Uint64} {hbase : 2 ≤ base.toNat}

theorem toDigits_step {b n : Nat} (hb : 2 ≤ b) : Nat.toDigits b n =
    (if 0 < n / b then Nat.toDigits b (n / b) else []) ++ [(n % b).digitChar] := by
  rw [Nat.toDigits_eq_if hb]
  split
  · rename_i hlt
    rw [Nat.div_eq_of_lt hlt, Nat.mod_eq_of_lt hlt]
    rfl
  · rename_i hge
    rw [if_pos (Nat.div_pos (by omega) (by omega))]

theorem length_toDigits_step {b n : Nat} (hb : 2 ≤ b) : (Nat.toDigits b n).length =
    (if 0 < n / b then (Nat.toDigits b (n / b)).length else 0) + 1 := by
  rw [toDigits_step hb]
  split <;> simp

theorem uses_storeDigits (hbase : 2 ≤ base.toNat) (size : Nat) (tmp : Uint64) :
    (storeDigits base hbase size tmp).Uses
      (Below (size + (Nat.toDigits base.toNat tmp.toNat).length)) := by
  fun_induction storeDigits base hbase size tmp with
  | case1 size tmp ih =>
      have hlength := length_toDigits_step hbase (n := tmp.toNat)
      rw [← BitVec.toNat_udiv] at hlength
      refine ⟨⟨rfl, nofun⟩, fun digit => ⟨⟨rfl, fun i hi => ?_⟩, fun _ => ?_⟩⟩
      · obtain rfl : size = i := Option.some.inj hi
        omega
      · dsimp only
        split
        · rename_i hpos
          rw [if_pos hpos] at hlength
          refine (ih hpos).mono fun op hop => ⟨hop.1, fun i hi => ?_⟩
          have hlt := hop.2 i hi
          omega
        · trivial

theorem exec_storeDigits (hbase : 2 ≤ base.toNat) (size : Nat) (tmp : Uint64) (t : Console) :
    ∃ buf, exec consoleHandler (storeDigits base hbase size tmp) t =
        (.ok (size + (Nat.toDigits base.toNat tmp.toNat).length), { t with buf := buf }) ∧
      (∀ j < size, buf j = t.buf j) ∧
      (base.toNat ≤ 16 → (List.range (Nat.toDigits base.toNat tmp.toNat).length).map
        (fun j => buf (size + j)) = (Nat.toDigits base.toNat tmp.toNat).reverse) := by
  fun_induction storeDigits base hbase size tmp generalizing t with
  | case1 size tmp ih =>
      have hlength := length_toDigits_step hbase (n := tmp.toNat)
      have hdigits := toDigits_step hbase (n := tmp.toNat)
      rw [← BitVec.toNat_udiv] at hlength hdigits
      have hdigit : base.toNat ≤ 16 → digitTable.getD (tmp % base).toNat nul =
          (tmp.toNat % base.toNat).digitChar := by
        intro hle
        rw [BitVec.toNat_umod]
        exact digitTable_eq ((Nat.mod_lt _ (by omega)).trans_le hle)
      let written : Console :=
        { t with buf := Function.update t.buf size (digitTable.getD (tmp % base).toNat nul) }
      have hfirst : ∀ {α : Type} (k : PrintfM α), exec consoleHandler (do
          let digit ← digitAt (tmp % base).toNat
          bufWrite size digit
          k) t = exec consoleHandler k written := fun _ => rfl
      rw [hfirst]
      split
      · rename_i hpos
        rw [if_pos hpos] at hlength hdigits
        obtain ⟨buf, hexec, hkept, hbuf⟩ := ih hpos written
        refine ⟨buf, ?_, fun j hj => ?_, fun hle => ?_⟩
        · rw [hexec, hlength, Nat.add_assoc, Nat.add_comm 1]
        · rw [hkept j (by omega)]
          exact Function.update_of_ne (by omega) _ _
        · have hhead : buf size = (tmp.toNat % base.toNat).digitChar := by
            rw [hkept size (by omega), ← hdigit hle]
            exact Function.update_self ..
          rw [hlength, hdigits, List.range_succ_eq_map, List.map_cons, List.map_map,
            List.reverse_append, ← hbuf hle, Nat.add_zero, hhead]
          refine congrArg _ (List.map_congr_left fun j _ => ?_)
          rw [Function.comp_apply, Nat.succ_eq_add_one, Nat.add_assoc size, Nat.add_comm 1]
      · rename_i hneg
        rw [if_neg hneg] at hlength hdigits
        refine ⟨written.buf, ?_, fun j hj => Function.update_of_ne (by omega) _ _, fun hle => ?_⟩
        · rw [hlength]
          rfl
        · rw [hlength, hdigits, ← hdigit hle]
          exact congrArg (fun c => [c]) (Function.update_self ..)

theorem length_toDigits_le (hbase : 2 ≤ base.toNat) (num : Uint64) :
    (Nat.toDigits base.toNat num.toNat).length ≤ 64 := by
  rw [Nat.length_toDigits_le_iff hbase (by decide)]
  exact num.isLt.trans_le (Nat.pow_le_pow_left hbase 64)

theorem uses_putBuffer (size : Nat) : (putBuffer size).Uses (Below size) := by
  induction size with
  | zero => trivial
  | succ size ih =>
      refine ⟨⟨rfl, fun i hi => ?_⟩, fun c => ⟨⟨rfl, nofun⟩, fun _ => ?_⟩⟩
      · obtain rfl : size = i := Option.some.inj hi
        exact Nat.lt_succ_self size
      · exact ih.mono fun op hop => ⟨hop.1, fun i hi => (hop.2 i hi).trans (Nat.lt_succ_self size)⟩

theorem exec_putBuffer (size : Nat) (t : Console) : exec consoleHandler (putBuffer size) t =
    (.ok (), { t with out := t.out ++ ((List.range size).map t.buf).reverse }) := by
  induction size generalizing t with
  | zero => simp [putBuffer]
  | succ size ih =>
      have hfirst : exec consoleHandler (putBuffer (size + 1)) t =
          exec consoleHandler (putBuffer size) { t with out := t.out ++ [t.buf size] } := rfl
      rw [hfirst, ih, List.range_succ, List.map_append, List.reverse_append, List.append_assoc]
      rfl

theorem toInt_of_nonneg {w : Nat} {x : BitVec w} (h : 0 ≤ x.toInt) : x.toInt = x.toNat := by
  have hlt := x.isLt
  rw [BitVec.toInt_eq_toNat_cond] at h ⊢
  split
  · rfl
  · rename_i hge
    rw [if_neg hge] at h
    omega

theorem toNat_signExtend_of_nonneg {w : Nat} (hw : w ≤ 64) {x : BitVec w} (h : 0 ≤ x.toInt) :
    (x.signExtend 64).toNat = x.toNat := by
  have hint : (x.signExtend 64).toInt = x.toInt := BitVec.toInt_signExtend_of_le hw
  have hnonneg : 0 ≤ (x.signExtend 64).toInt := hint ▸ h
  rw [toInt_of_nonneg h, toInt_of_nonneg hnonneg] at hint
  exact Int.ofNat.inj hint

/-- Whatever the base, the buffer has room for the digits. -/
theorem accesses_printUint (num : Uint64) (base : Uint32) (t : Console) :
    ∀ x ∈ accesses consoleHandler (printUint num base) t, Below 64 x.2 := by
  unfold printUint
  split
  · exact fun x hx => absurd hx List.not_mem_nil
  · rename_i hbase
    have hbase := two_le_signExtend hbase
    have hlength := length_toDigits_le hbase num
    obtain ⟨buf, hexec, -⟩ := exec_storeDigits hbase 0 num t
    have hmono : ∀ {bound : Nat} {op : PrintfOp}, bound ≤ 64 → Below bound op → Below 64 op :=
      fun hle hop => ⟨hop.1, fun i hi => (hop.2 i hi).trans_le hle⟩
    rw [accesses_bind_ok consoleHandler hexec]
    intro x hx
    rcases List.mem_append.mp hx with hx | hx
    · exact hmono (by omega) (forall_mem_accesses_of_uses (uses_storeDigits hbase 0 num) t x hx)
    · exact hmono (by omega) (forall_mem_accesses_of_uses (uses_putBuffer _) _ x hx)

/-- `print_uint` prints the numeral of the number. -/
theorem prints_printUint (t : Console) (num : Uint64) (base : Uint32) (hbase : 2 ≤ base.toInt)
    (hbase' : base.toInt ≤ 16) :
    Prints t (printUint num base) () (Nat.toDigits base.toNat num.toNat) 0 [] := by
  have hnat : (base.signExtend 64).toNat = base.toNat := toNat_signExtend_of_nonneg (by decide) (by omega)
  have hle : base.toNat ≤ 16 := by
    have hint := toInt_of_nonneg (x := base) (by omega)
    omega
  constructor
  · have htwo := two_le_signExtend (Int.not_lt.mpr hbase)
    obtain ⟨buf, hexec, -, hbuf⟩ := exec_storeDigits htwo 0 num t
    rw [hnat] at hexec hbuf
    have hbuf := hbuf hle
    simp only [Nat.zero_add] at hbuf hexec
    refine ⟨buf, ?_⟩
    rw [printUint, dif_neg (by omega), exec_bind_ok consoleHandler hexec, exec_putBuffer, hbuf,
      List.reverse_reverse, Nat.add_zero]
  · apply List.filterMap_eq_nil_iff.mpr
    exact fun x hx => (accesses_printUint num base t x hx).1

end PrintUint

section PrintPadded

/-- The characters of the last loop of `print_padded`. -/
def paddedText (bits charsForByte : Nat) (start : Int) : Nat → Int → Uint64 → List Char
  | 0, _, _ => []
  | rounds + 1, i, num =>
      (if i ≠ start ∧ bits = 1 ∧ i.tmod charsForByte = 0 then ['_'] else []) ++
        (num >>> (64 - bits)).toNat.digitChar ::
          paddedText bits charsForByte start rounds (i + 1) (num <<< bits)

theorem shiftRight_lt {bits : Nat} (hbits : bits ≤ 64) (num : Uint64) :
    (num >>> (64 - bits)).toNat < 2 ^ bits := by
  rw [BitVec.toNat_ushiftRight, Nat.shiftRight_eq_div_pow, Nat.div_lt_iff_lt_mul (Nat.two_pow_pos _),
    ← pow_add, Nat.add_sub_cancel' hbits]
  exact num.isLt

theorem prints_putSeparator (bits charsForByte : Nat) (start i : Int) (t : Console) :
    Prints t (putSeparator bits charsForByte start i) ()
      (if i ≠ start ∧ bits = 1 ∧ i.tmod charsForByte = 0 then ['_'] else []) 0 [] := by
  unfold putSeparator
  split
  · exact prints_uartputc t '_'
  · exact prints_pure t ()

theorem prints_putPadded {bits charsForByte : Nat} (hbits : bits ≤ 4) (start : Int)
    (rounds : Nat) (i : Int) (num : Uint64) (t : Console) :
    Prints t (putPadded bits charsForByte start rounds i num) ()
      (paddedText bits charsForByte start rounds i num) 0 [] := by
  induction rounds generalizing i num t with
  | zero => exact prints_pure t ()
  | succ rounds ih =>
      have hdigit : (num >>> (64 - bits)).toNat < 16 :=
        (shiftRight_lt (by omega) num).trans_le (Nat.pow_le_pow_right (by decide) hbits)
      unfold putPadded paddedText
      refine (prints_putSeparator bits charsForByte start i t).bind_text fun t₁ _ => ?_
      refine (prints_digitAt t₁ hdigit).bind_silent fun t₂ _ => ?_
      exact (prints_uartputc t₂ _).bind_text fun t₃ _ => ih (i + 1) (num <<< bits) t₃

/-- The digits of `bits` bits each at the top of a number. -/
def topDigits (bits n : Nat) (num : Uint64) : List Char :=
  fixedDigits (2 ^ bits) n (num.toNat / 2 ^ (64 - bits * n))

/-- What is left of a number after its top bits have been shifted out. -/
theorem shiftLeft_div {s k r : Nat} (h : s + k + r = 64) (num : Uint64) :
    (num <<< k).toNat / 2 ^ (64 - r) = num.toNat / 2 ^ s % 2 ^ r := by
  have hpow : 2 ^ 64 = 2 ^ (s + k) * 2 ^ r := by rw [← pow_add, h]
  rw [BitVec.toNat_shiftLeft, Nat.shiftLeft_eq, hpow, show 64 - r = s + k by omega,
    Nat.mod_mul_right_div_self, pow_add, Nat.mul_div_mul_right _ _ (Nat.two_pow_pos k)]

theorem topDigits_add {bits m n : Nat} (h : bits * (m + n) ≤ 64) (num : Uint64) :
    topDigits bits (m + n) num = topDigits bits m num ++ topDigits bits n (num <<< (bits * m)) := by
  have hmul : bits * (m + n) = bits * m + bits * n := Nat.mul_add bits m n
  have hrest : (num <<< (bits * m)).toNat / 2 ^ (64 - bits * n) =
      num.toNat / 2 ^ (64 - bits * (m + n)) % (2 ^ bits) ^ n := by
    rw [shiftLeft_div (s := 64 - bits * (m + n)) (by omega), pow_mul]
  have hfirst : num.toNat / 2 ^ (64 - bits * (m + n)) / (2 ^ bits) ^ n =
      num.toNat / 2 ^ (64 - bits * m) := by
    rw [Nat.div_div_eq_div_mul, ← pow_mul, ← pow_add]
    congr 2
    omega
  rw [topDigits, fixedDigits_add, hfirst, topDigits, topDigits, hrest, fixedDigits_mod n _ (le_refl n)]

theorem topDigits_one {bits : Nat} (h : bits ≤ 64) (num : Uint64) :
    topDigits bits 1 num = [(num >>> (64 - bits)).toNat.digitChar] := by
  have hlt := shiftRight_lt h num
  rw [BitVec.toNat_ushiftRight, Nat.shiftRight_eq_div_pow] at hlt ⊢
  rw [topDigits, fixedDigits, fixedDigits, pow_zero, Nat.div_one, Nat.mul_one, Nat.mod_eq_of_lt hlt]

/-- Shifting the upper bytes out leaves the digits of the lower ones on top. -/
theorem topDigits_shiftLeft {bits s n : Nat} (h : bits * (s + n) = 64) (num : Uint64) :
    topDigits bits n (num <<< (bits * s)) = fixedDigits (2 ^ bits) n num.toNat := by
  have hmul : bits * (s + n) = bits * s + bits * n := Nat.mul_add bits s n
  rw [topDigits, shiftLeft_div (s := 0) (by omega), pow_zero, Nat.div_one, pow_mul,
    fixedDigits_mod n _ (le_refl n)]

theorem foldl_shiftLeft (bits s : Nat) (num : Uint64) :
    (List.range s).foldl (fun (num : Uint64) _ => num <<< bits) num = num <<< (bits * s) := by
  induction s with
  | zero => simp
  | succ s ih =>
      rw [List.range_succ, List.foldl_append, ih, List.foldl_cons, List.foldl_nil,
        ← BitVec.shiftLeft_add, Nat.mul_succ]

theorem paddedText_succ {bits charsForByte n : Nat} {start i : Int} (num : Uint64)
    (h : ¬ (i ≠ start ∧ bits = 1 ∧ i.tmod charsForByte = 0)) (hbits : bits ≤ 64) :
    paddedText bits charsForByte start (n + 1) i num =
      topDigits bits 1 num ++ paddedText bits charsForByte start n (i + 1) (num <<< bits) := by
  rw [paddedText, if_neg h, topDigits_one hbits]
  rfl

/-- Rounds in which no separator is put print the digits one after the other. -/
theorem paddedText_add {bits charsForByte : Nat} {start : Int} {m n : Nat} {i : Int}
    (h : ∀ j : Nat, j < m → ¬ (i + j ≠ start ∧ bits = 1 ∧ (i + j).tmod charsForByte = 0))
    (hbits : bits * m ≤ 64) (hle : bits ≤ 64) (num : Uint64) :
    paddedText bits charsForByte start (m + n) i num = topDigits bits m num ++
      paddedText bits charsForByte start n (i + m) (num <<< (bits * m)) := by
  induction m generalizing i num with
  | zero => simp [topDigits, fixedDigits]
  | succ m ih =>
      have hmul : bits * (m + 1) = bits * m + bits := Nat.mul_succ bits m
      have hfirst := h 0 (Nat.succ_pos m)
      rw [Int.natCast_zero, Int.add_zero] at hfirst
      have hrest := ih (i := i + 1) (fun j hj => by
        have hnext := h (j + 1) (by omega)
        rwa [Int.natCast_add, Int.natCast_one, Int.add_comm (j : Int), ← Int.add_assoc] at hnext)
        (by omega) (num <<< bits)
      rw [show m + 1 + n = (m + n) + 1 by omega, paddedText_succ num hfirst hle, hrest,
        ← List.append_assoc, Nat.add_comm m 1, topDigits_add (by rw [Nat.add_comm]; omega),
        Nat.mul_one, ← BitVec.shiftLeft_add, Int.add_assoc]
      rw [show bits + bits * m = bits * (1 + m) by rw [Nat.mul_add, Nat.mul_one],
        show (1 : Int) + m = ((1 + m : Nat) : Int) by omega]

/-- The binary digits of the bytes at the top of a number. -/
def byteGroups : Nat → Uint64 → List (List Char)
  | 0, _ => []
  | k + 1, num => topDigits 1 8 num :: byteGroups k (num <<< 8)

theorem length_byteGroups (k : Nat) (num : Uint64) : (byteGroups k num).length = k := by
  induction k generalizing num with
  | zero => rfl
  | succ k ih => rw [byteGroups, List.length_cons, ih]

theorem forall_mem_byteGroups (k : Nat) (num : Uint64) : ∀ group ∈ byteGroups k num,
    group.length = 8 ∧ ∀ c ∈ group, c = '0' ∨ c = '1' := by
  induction k generalizing num with
  | zero => exact fun group hgroup => absurd hgroup List.not_mem_nil
  | succ k ih =>
      refine List.forall_mem_cons.mpr ⟨⟨length_fixedDigits _ _ _, ?_⟩, ih _⟩
      exact forall_mem_fixedDigits (by decide) (by decide) _ _

theorem flatten_byteGroups {k : Nat} (hk : k ≤ 8) (num : Uint64) :
    (byteGroups k num).flatten = topDigits 1 (8 * k) num := by
  induction k generalizing num with
  | zero => rfl
  | succ k ih =>
      rw [byteGroups, List.flatten_cons, ih (by omega), show 8 * (k + 1) = 8 + 8 * k by omega,
        topDigits_add (by omega)]

theorem intercalate_cons (group : List Char) (groups : List (List Char)) :
    ['_'].intercalate (group :: groups) = group ++ groups.flatMap fun group => '_' :: group := by
  induction groups generalizing group with
  | nil => simp
  | cons group' groups ih =>
      rw [List.intercalate_cons_cons, ih, List.flatMap_cons]
      simp

/-- One byte: the separator stands before it unless it is the first. -/
theorem paddedText_byte {start i : Int} (hi : 0 ≤ i) (hmod : i % 8 = 0) (n : Nat) (num : Uint64) :
    paddedText 1 8 start (8 + n) i num = (if i ≠ start then ['_'] else []) ++ topDigits 1 8 num ++
      paddedText 1 8 start n (i + 8) (num <<< 8) := by
  have hsep : (i ≠ start ∧ 1 = 1 ∧ i.tmod (8 : Nat) = 0) ↔ i ≠ start := by
    rw [Int.tmod_eq_emod_of_nonneg hi]
    simp [hmod]
  have hrest : paddedText 1 8 start (7 + n) (i + 1) (num <<< 1) = topDigits 1 7 (num <<< 1) ++
      paddedText 1 8 start n (i + 1 + 7) (num <<< 1 <<< (1 * 7)) := by
    refine paddedText_add (fun j hj => ?_) (by decide) (by decide) (num <<< 1)
    rw [Int.tmod_eq_emod_of_nonneg (by omega)]
    omega
  rw [show 8 + n = (7 + n) + 1 by omega, paddedText, if_congr hsep rfl rfl, hrest,
    show (8 : Nat) = 1 + 7 from rfl, topDigits_add (by decide), topDigits_one (by decide),
    ← BitVec.shiftLeft_add, Int.add_assoc]
  simp

theorem paddedText_later_bytes {start i : Int} (hstart : 0 ≤ start) (hi : start < i)
    (hmod : i % 8 = 0) (k : Nat) (num : Uint64) : paddedText 1 8 start (8 * k) i num =
      (byteGroups k num).flatMap fun group => '_' :: group := by
  induction k generalizing i num with
  | zero => rfl
  | succ k ih =>
      rw [show 8 * (k + 1) = 8 + 8 * k by omega, paddedText_byte (by omega) hmod,
        if_pos (by omega), ih (by omega) (by omega), byteGroups, List.flatMap_cons]
      rfl

theorem paddedText_bytes {start : Int} (hstart : 0 ≤ start) (hmod : start % 8 = 0) (k : Nat)
    (num : Uint64) : paddedText 1 8 start (8 * (k + 1)) start num =
      ['_'].intercalate (byteGroups (k + 1) num) := by
  rw [show 8 * (k + 1) = 8 + 8 * k by omega, paddedText_byte hstart hmod,
    if_neg (not_not.mpr rfl), paddedText_later_bytes hstart (by omega) (by omega), byteGroups,
    intercalate_cons]
  rfl

theorem bitsInChar_two : bitsInChar 2 = 1 := by
  simp [bitsInChar]

theorem bitsInChar_sixteen : bitsInChar 16 = 4 := by
  simp [bitsInChar]

/-- The positions for a number of bytes, computed without wrapping around. -/
theorem padded_start {k : Nat} (hk : k ≤ 8) {charsForByte : Nat}
    (hchars : charsForByte = 8 ∨ charsForByte = 2) :
    toInt ((8 - (BitVec.ofNat 32 k).signExtend 64) * BitVec.ofNat 64 charsForByte) =
      ((8 - k) * charsForByte : Nat) := by
  have hall : ∀ k : Fin 9, ∀ charsForByte ∈ [8, 2],
      toInt ((8 - (BitVec.ofNat 32 k.val).signExtend 64) * BitVec.ofNat 64 charsForByte) =
        ((8 - k.val) * charsForByte : Nat) := by decide
  exact hall ⟨k, by omega⟩ charsForByte (by simpa using hchars)

/-- `print_padded` after its positions are known. -/
theorem printPadded_eq {base : Uint32} {bits charsForByte k : Nat} (hbase : base = 2 ∨ base = 16)
    (hbits : bitsInChar base.toInt = bits) (hchars : 8 / bits = charsForByte)
    (hchars' : charsForByte = 8 ∨ charsForByte = 2) (hk : k ≤ 8) (num : Uint64) :
    printPadded num base (BitVec.ofNat 32 k) = putPadded bits charsForByte
      ((8 - k) * charsForByte : Nat) (k * charsForByte) ((8 - k) * charsForByte : Nat)
        (num <<< (bits * ((8 - k) * charsForByte))) := by
  have hstop : toInt (8 * BitVec.ofNat 64 charsForByte) = (8 * charsForByte : Nat) := by
    rcases hchars' with rfl | rfl <;> rfl
  have hrounds : (((8 * charsForByte : Nat) : Int) - ((8 - k) * charsForByte : Nat)).toNat =
      k * charsForByte := by
    rw [Int.toNat_sub, ← Nat.mul_sub_right_distrib]
    congr 1
    omega
  rw [printPadded, if_neg (by rcases hbase with rfl | rfl <;> decide)]
  simp only [hbits, hchars, padded_start hk hchars', hstop, hrounds, foldl_shiftLeft,
    Int.toNat_natCast]

/-- The hexadecimal digits of the lowest bytes. -/
theorem prints_printPadded_hex (t : Console) (num : Uint64) {k : Nat} (hk : k ≤ 8) :
    Prints t (printPadded num 16 (BitVec.ofNat 32 k)) () (fixedDigits 16 (2 * k) num.toNat) 0
      [] := by
  have htext (start i : Int) (num : Uint64) :
      paddedText 4 2 start (k * 2) i num = topDigits 4 (k * 2) num := by
    have hadd : paddedText 4 2 start (k * 2 + 0) i num = topDigits 4 (k * 2) num ++
        paddedText 4 2 start 0 (i + (k * 2 : Nat)) (num <<< (4 * (k * 2))) :=
      paddedText_add (fun j _ h => absurd h.2.1 (by decide)) (by omega) (by decide) num
    rwa [paddedText, List.append_nil] at hadd
  rw [printPadded_eq (.inr rfl) bitsInChar_sixteen rfl (.inr rfl) hk, Nat.mul_comm 2 k,
    show 16 = 2 ^ 4 from rfl, ← topDigits_shiftLeft (s := (8 - k) * 2) (by omega), ← htext]
  exact prints_putPadded (by decide) _ _ _ _ t

/-- The binary digits of the lowest bytes, the bytes set apart. -/
theorem prints_printPadded_binary (t : Console) (num : Uint64) {k : Nat} (hlow : 1 ≤ k)
    (hk : k ≤ 8) :
    Prints t (printPadded num 2 (BitVec.ofNat 32 k)) ()
      (['_'].intercalate (byteGroups k (num <<< (8 * (8 - k))))) 0 [] := by
  obtain ⟨k, rfl⟩ := Nat.exists_eq_add_of_le' hlow
  have htext : paddedText 1 8 ((8 - (k + 1)) * 8 : Nat) (8 * (k + 1)) ((8 - (k + 1)) * 8 : Nat)
      (num <<< (8 * (8 - (k + 1)))) =
        ['_'].intercalate (byteGroups (k + 1) (num <<< (8 * (8 - (k + 1))))) :=
    paddedText_bytes (by omega) (by omega) k _
  rw [printPadded_eq (.inl rfl) bitsInChar_two rfl (.inl rfl) hk, ← htext, Nat.one_mul,
    Nat.mul_comm (k + 1) 8, Nat.mul_comm 8 (8 - (k + 1))]
  exact prints_putPadded (by decide) _ _ _ _ t

theorem flatten_padded {k : Nat} (hk : k ≤ 8) (num : Uint64) :
    (byteGroups k (num <<< (8 * (8 - k)))).flatten = fixedDigits 2 (8 * k) num.toNat := by
  rw [flatten_byteGroups hk, show 8 * (8 - k) = 1 * (8 * (8 - k)) by omega,
    topDigits_shiftLeft (by omega)]
  rfl

theorem uses_putPadded (bits : Nat) (hbits : bits ≤ 64) (charsForByte : Nat) (start : Int)
    (rounds : Nat) (i : Int) (num : Uint64) :
    (putPadded bits charsForByte start rounds i num).Uses fun op : PrintfOp =>
      ∀ d, op = .digits d → d < 2 ^ bits := by
  induction rounds generalizing i num with
  | zero => trivial
  | succ rounds ih =>
      refine Program.Uses.bind ?_ fun _ => ⟨?_, fun digit => ⟨nofun, fun _ => ih _ _⟩⟩
      · exact Program.uses_ite (Program.uses_perform nofun) trivial
      · rintro d ⟨⟩
        exact shiftRight_lt hbits num

theorem uses_printPadded {base : Uint32} (hbase : base = 2 ∨ base = 16) {k : Nat} (hk : k ≤ 8)
    (num : Uint64) : (printPadded num base (BitVec.ofNat 32 k)).Uses fun op : PrintfOp =>
      ∀ d, op = .digits d → d < base.toNat := by
  rcases hbase with rfl | rfl
  · rw [printPadded_eq (.inl rfl) bitsInChar_two rfl (.inl rfl) hk]
    exact uses_putPadded 1 (by decide) _ _ _ _ _
  · rw [printPadded_eq (.inr rfl) bitsInChar_sixteen rfl (.inr rfl) hk]
    exact uses_putPadded 4 (by decide) _ _ _ _ _

/-- Padded output denotes the lowest bytes of the number. -/
theorem printPadded_denotes (num : Uint64) (k : Nat) (hlow : 1 ≤ k) (hhigh : k ≤ 8)
    (t : Console) :
    (∃ text, Prints t (printPadded num 16 (BitVec.ofNat 32 k)) () text 0 [] ∧
      text.length = 2 * k ∧ (∀ c ∈ text, c ∈ "0123456789abcdef".toList) ∧
      readDigits 16 text = num.toNat % 2 ^ (8 * k)) ∧
    (∃ groups, Prints t (printPadded num 2 (BitVec.ofNat 32 k)) () (['_'].intercalate groups) 0 [] ∧
      groups.length = k ∧ (∀ group ∈ groups, group.length = 8 ∧ ∀ c ∈ group, c = '0' ∨ c = '1') ∧
      readDigits 2 groups.flatten = num.toNat % 2 ^ (8 * k)) ∧
    ∀ base : Uint32, base = 2 ∨ base = 16 →
      (printPadded num base (BitVec.ofNat 32 k)).Uses fun op : PrintfOp =>
        ∀ d, op = .digits d → d < base.toNat := by
  refine ⟨⟨fixedDigits 16 (2 * k) num.toNat, prints_printPadded_hex t num hhigh,
    length_fixedDigits _ _ _, ?_, ?_⟩, ⟨byteGroups k (num <<< (8 * (8 - k))),
    prints_printPadded_binary t num hlow hhigh, length_byteGroups _ _, forall_mem_byteGroups _ _,
    ?_⟩, fun base hbase => uses_printPadded hbase hhigh num⟩
  · exact forall_mem_fixedDigits (by decide) (by decide) _ _
  · rw [readDigits_fixedDigits (by decide) (by decide), show 16 = 2 ^ 4 from rfl, ← pow_mul,
      ← Nat.mul_assoc]
  · rw [flatten_padded hhigh, readDigits_fixedDigits (by decide) (by decide)]

/-- The lowest byte of a number in hexadecimal, and its lowest two in binary. -/
theorem printPadded_denotes_bytes :
    (∃ text, Prints (called [] []) (printPadded 0x301ab 16 1) () text 0 [] ∧ text.length = 2 ∧
      readDigits 16 text = 0xab) ∧
    ∃ groups, Prints (called [] []) (printPadded 0x301ab 2 2) () (['_'].intercalate groups) 0 [] ∧
      groups.length = 2 ∧ readDigits 2 groups.flatten = 0x1ab := by
  constructor
  · obtain ⟨⟨text, hprints, hlength, -, hread⟩, -⟩ :=
      printPadded_denotes 0x301ab 1 (by decide) (by decide) (called [] [])
    exact ⟨text, hprints, hlength, hread⟩
  · obtain ⟨-, ⟨groups, hprints, hlength, -, hread⟩, -⟩ :=
      printPadded_denotes 0x301ab 2 (by decide) (by decide) (called [] [])
    exact ⟨groups, hprints, hlength, hread⟩

end PrintPadded

end RiscvHypervisor.PrintfOutput
