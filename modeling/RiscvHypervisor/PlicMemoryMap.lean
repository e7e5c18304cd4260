import RiscvHypervisor.RegisterExecution

/-!
The register layout of the PLIC, written down twice: the emulation takes a byte
offset apart into register, context and source, and the driver puts a word
index together from them.  Where the renumbering is the identity the two cancel
out: an emulated access at an offset is an access to the physical word there,
bit by bit.
-/

namespace RiscvHypervisor.PlicMemoryMap

open RiscvHypervisor.EffectProgram
open RiscvHypervisor.MachineTypes
open RiscvHypervisor.GuestConfig
open RiscvHypervisor.PlicDriver
open RiscvHypervisor.VirtualCpu
open RiscvHypervisor.VirtualPlic
open RiscvHypervisor.EmulatedAccess
open RiscvHypervisor.RegisterMap
open RiscvHypervisor.RegisterExecution

section Words

/-- The program loads the bits of the word that are shown, and nothing else. -/
structure ReadsWord (word : Nat) (shown : Nat → Bool) (p : PlicM Uint32) : Prop where
  touches : p.Uses fun op : PlicOp => op = .read word
  bits : ∀ plic, ∃ val, exec plicHandler p plic = (.ok val, plic) ∧
    ∀ i < 32, val.getLsbD i = (shown i && (plic.regs word).getLsbD i)

/-- The program stores the bits of the value that are passed on, and leaves the
other bits of the word and all other words alone. -/
structure WritesWord {α : Type} (word : Nat) (stored : Nat → Bool) (val : Uint32) (p : PlicM α) :
    Prop where
  touches : p.Uses fun op : PlicOp => op.index = word
  bits : ∀ plic, ∃ a word', exec plicHandler p plic = (.ok a, plic.setReg word word') ∧
    ∀ i < 32, word'.getLsbD i =
      if stored i then val.getLsbD i else (plic.regs word).getLsbD i

variable {α β : Type} {word : Nat} {val : Uint32}

theorem setReg_regs_self (plic : Plic) (word : Nat) : plic.setReg word (plic.regs word) = plic := by
  rw [Plic.setReg, Function.update_eq_self]

theorem setReg_setReg (plic : Plic) (word : Nat) (value value' : Uint32) :
    (plic.setReg word value).setReg word value' = plic.setReg word value' := by
  simp only [Plic.setReg, Function.update_idem]

theorem ReadsWord.congr {shown shown' : Nat → Bool} {p : PlicM Uint32}
    (h : ReadsWord word shown p) (hshown : ∀ i < 32, shown' i = shown i) :
    ReadsWord word shown' p := by
  refine ⟨h.touches, fun plic => ?_⟩
  obtain ⟨value, hexec, hbits⟩ := h.bits plic
  exact ⟨value, hexec, fun i hi => by rw [hbits i hi, hshown i hi]⟩

theorem readsWord_zero (word : Nat) : ReadsWord word (fun _ => false) (pure 0) :=
  ⟨trivial, fun _ => ⟨0, rfl, fun _ _ => BitVec.getLsbD_zero⟩⟩

theorem readsWord_plicRead (h : claimContext word = none) :
    ReadsWord word (fun _ => true) (plicRead word) :=
  ⟨Program.uses_perform rfl, fun plic => ⟨plic.regs word, exec_plicRead h, fun _ _ => rfl⟩⟩

theorem WritesWord.congr {stored stored' : Nat → Bool} {p : PlicM α}
    (h : WritesWord word stored val p) (hstored : ∀ i < 32, stored' i = stored i) :
    WritesWord word stored' val p := by
  refine ⟨h.touches, fun plic => ?_⟩
  obtain ⟨a, word', hexec, hbits⟩ := h.bits plic
  exact ⟨a, word', hexec, fun i hi => by rw [hbits i hi, hstored i hi]⟩

theorem writesWord_pure (word : Nat) (val : Uint32) (a : α) :
    WritesWord word (fun _ => false) val (pure a) :=
  ⟨trivial, fun plic => ⟨a, plic.regs word, by rw [setReg_regs_self]; rfl, fun _ _ => rfl⟩⟩

theorem writesWord_plicWrite (h : claimContext word = none) (val : Uint32) :
    WritesWord word (fun _ => true) val (plicWrite word val) := by
  refine ⟨Program.uses_perform rfl, fun plic => ⟨(), val, ?_, fun _ _ => rfl⟩⟩
  have hindex : claimContext (word : Int).toNat = none := h
  exact exec_plicWrite hindex val

/-- Of two programs in sequence, each passes on its own bits of the value. -/
theorem WritesWord.bind {stored stored' : Nat → Bool} {p : PlicM α} {f : α → PlicM β}
    (hp : WritesWord word stored val p) (hf : ∀ a, WritesWord word stored' val (f a)) :
    WritesWord word (fun i => stored i || stored' i) val (p >>= f) := by
  refine ⟨hp.touches.bind fun a => (hf a).touches, fun plic => ?_⟩
  obtain ⟨a, word₁, hexec₁, hbits₁⟩ := hp.bits plic
  obtain ⟨b, word₂, hexec₂, hbits₂⟩ := (hf a).bits (plic.setReg word word₁)
  refine ⟨b, word₂, ?_, fun i hi => ?_⟩
  · rw [exec_bind_ok _ hexec₁, hexec₂, setReg_setReg]
  · rw [hbits₂ i hi, Plic.setReg_same, hbits₁ i hi]
    cases stored i <;> cases stored' i <;> rfl

theorem WritesWord.bind_pure {stored : Nat → Bool} {p : PlicM α} (hp : WritesWord word stored val p)
    (b : β) : WritesWord word stored val (p >>= fun _ => pure b) :=
  (hp.bind fun _ => writesWord_pure word val b).congr fun _ _ => (Bool.or_false _).symm

/-- A loop whose rounds pass on one bit each. -/
theorem writesWord_foldlM (stored : Nat → Bool) {set : Nat → PlicM Unit} {indices : List Nat}
    (hset : ∀ i ∈ indices, WritesWord word (fun j => decide (j = i) && stored j) val (set i)) :
    WritesWord word (fun j => decide (j ∈ indices) && stored j) val
      (indices.foldlM (fun (_ : Unit) (i : Nat) => set i) ()) := by
  induction indices with
  | nil => exact (writesWord_pure word val ()).congr fun _ _ => by simp
  | cons i indices ih =>
      have hrest := ih fun j hj => hset j (List.mem_cons_of_mem i hj)
      rw [List.foldlM_cons]
      refine ((hset i List.mem_cons_self).bind fun _ => hrest).congr fun j _ => ?_
      simp only [List.mem_cons, Bool.decide_or, Bool.and_or_distrib_right]

end Words

section Driver

/-- The driver passes on accesses to these sources only. -/
def accepted (irq : Int) : Bool := decide (1 ≤ irq ∧ irq ≤ 1023)

theorem accepted_eq_false_iff {irq : Int} : accepted irq = false ↔ irq < 1 ∨ 1023 < irq := by
  rw [accepted, decide_eq_false_iff_not]
  omega

theorem exists_nat_of_accepted {irq : Int} (h : accepted irq = true) :
    ∃ p : Nat, irq = p ∧ 1 ≤ p ∧ p ≤ 1023 := by
  obtain ⟨hlow, hhigh⟩ := of_decide_eq_true h
  exact ⟨irq.toNat, by omega, by omega, by omega⟩

variable {source context : Nat} {irq : Int}

theorem readsWord_plicGetPriority (hirq : irq = source ∨ irq = 0) :
    ReadsWord source (fun _ => accepted irq) (plicGetPriority irq) := by
  unfold plicGetPriority
  split
  · rename_i hout
    rw [accepted_eq_false_iff.mpr hout]
    exact readsWord_zero source
  · rename_i hin
    have haccepted : accepted irq = true := by
      rw [← Bool.not_eq_false, accepted_eq_false_iff]
      exact hin
    obtain rfl : irq = source := hirq.resolve_right (by omega)
    rw [haccepted]
    exact readsWord_plicRead (claimContext_priority (by omega))

theorem writesWord_plicSetPriority (hirq : irq = source ∨ irq = 0) (val : Uint32) :
    WritesWord source (fun _ => accepted irq) val (plicSetPriority irq val) := by
  unfold plicSetPriority
  split
  · rename_i hout
    rw [accepted_eq_false_iff.mpr hout]
    exact writesWord_pure source val ()
  · rename_i hin
    have haccepted : accepted irq = true := by
      rw [← Bool.not_eq_false, accepted_eq_false_iff]
      exact hin
    obtain rfl : irq = source := hirq.resolve_right (by omega)
    rw [haccepted]
    exact writesWord_plicWrite (claimContext_priority (by omega)) val

theorem exec_plicGetPending_int (irq : Int) (plic : Plic) :
    exec plicHandler (plicGetPending irq) plic =
      (.ok (if accepted irq then plic.regs (pendingWord irq.toNat) &&& sourceMask irq else 0),
        plic) := by
  rcases haccepted : accepted irq with - | -
  · rw [plicGetPending, if_pos (accepted_eq_false_iff.mp haccepted)]
    rfl
  · obtain ⟨p, rfl, hrange⟩ := exists_nat_of_accepted haccepted
    rw [exec_plicGetPending, if_pos hrange]
    rfl

theorem exec_plicGetEnabled_int (context : Nat) (irq : Int) (plic : Plic) :
    exec plicHandler (plicGetEnabled context irq) plic =
      (.ok (if decide (context ≤ 15871) && accepted irq then
        plic.regs (enableWord context irq.toNat) &&& sourceMask irq else 0), plic) := by
  rcases haccepted : accepted irq with - | -
  · rw [plicGetEnabled, if_pos (accepted_eq_false_iff.mp haccepted), Bool.and_false]
    rfl
  · obtain ⟨p, rfl, hrange⟩ := exists_nat_of_accepted haccepted
    rcases Nat.lt_or_ge 15871 context with hgt | hle
    · rw [plicGetEnabled, if_neg (by omega), if_pos (by omega),
        decide_eq_false (Nat.not_le.mpr hgt)]
      rfl
    · rw [exec_plicGetEnabled hle, if_pos hrange, decide_eq_true hle]
      rfl

/-- The bit that the driver cuts out of a word for a source. -/
theorem masked_ne_zero_iff {passed : Bool} (hpassed : passed = true → accepted irq = true)
    {wordOf : Nat → Nat} {word i : Nat} (plic : Plic) (hirq : irq = source ∨ irq = 0)
    (hword : wordOf source = word) (hi : source % 32 = i) :
    decide ((if passed then plic.regs (wordOf irq.toNat) &&& sourceMask irq else 0) ≠ 0) =
      (passed && (plic.regs word).getLsbD i) := by
  cases passed with
  | false => rfl
  | true =>
      obtain ⟨p, rfl, hlow, -⟩ := exists_nat_of_accepted (hpassed rfl)
      obtain rfl : p = source := by omega
      have hbit := and_sourceMask_ne_zero_iff (plic.regs word) p
      rw [hi] at hbit
      rw [if_pos rfl, Int.toNat_natCast, hword, Bool.true_and, Bool.eq_iff_iff, decide_eq_true_iff,
        hbit]

theorem plicGetPending_touches (hirq : irq = source ∨ irq = 0) :
    (plicGetPending irq).Uses fun op : PlicOp => op = .read (pendingWord source) := by
  unfold plicGetPending
  split
  · trivial
  · obtain rfl : irq = source := hirq.resolve_right (by omega)
    have hword : (0x1000 / 4 + (source : Int) / 32).toNat = pendingWord source := by
      simp only [pendingWord]
      omega
    exact ⟨congrArg PlicOp.read hword, fun _ => trivial⟩

theorem plicGetEnabled_touches (hirq : irq = source ∨ irq = 0) :
    (plicGetEnabled context irq).Uses
      fun op : PlicOp => op = .read (enableWord context source) := by
  unfold plicGetEnabled
  split
  · trivial
  · split
    · trivial
    · obtain rfl : irq = source := hirq.resolve_right (by omega)
      exact ⟨congrArg PlicOp.read (enableOffset_toNat context source), fun _ => trivial⟩

theorem writesWord_plicSetEnabled {word i : Nat} (hi : i < 32) (hirq : irq = source ∨ irq = 0)
    (hword : enableWord context source = word) (hsource : source % 32 = i) (val : Uint32) :
    WritesWord word (fun j => decide (j = i) && (decide (context ≤ 15871) && accepted irq)) val
      (plicSetEnabled context irq (toInt ((1 : Uint32) <<< i &&& val))) := by
  unfold plicSetEnabled
  split
  · rename_i hout
    refine (writesWord_pure word val ()).congr fun j _ => ?_
    rw [accepted_eq_false_iff.mpr hout, Bool.and_false, Bool.and_false]
  · rename_i hin
    have haccepted : accepted irq = true := by
      rw [← Bool.not_eq_false, accepted_eq_false_iff]
      exact hin
    obtain rfl : irq = source := hirq.resolve_right (by omega)
    split
    · rename_i hcontext
      have hgt : ¬ context ≤ 15871 := by omega
      refine (writesWord_pure word val ()).congr fun j _ => ?_
      rw [decide_eq_false hgt, Bool.false_and, Bool.and_false]
    · rename_i hcontext
      have hle : context ≤ 15871 := by omega
      have hval := decide_toInt_and hi val
      have hmask : ∀ j < 32, (sourceMask source).getLsbD j = decide (j = i) := fun j hj => by
        rw [sourceMask_getLsbD hj, hsource]
      split
      · rename_i henable
        rw [henable] at hval
        refine ⟨Program.uses_perform ?_, fun plic =>
          ⟨(), plic.regs word &&& ~~~sourceMask source, ?_, fun j hj => ?_⟩⟩
        · rw [PlicOp.index, enableOffset_toNat, hword]
        · rw [exec_plicAmoand, enableOffset_toNat, hword]
        · rw [BitVec.getLsbD_and, BitVec.getLsbD_not, hmask j hj, haccepted, decide_eq_true hle]
          rcases Decidable.em (j = i) with rfl | hne
          · simpa using hval
          · simp [hne, hj]
      · rename_i henable
        rw [decide_eq_true henable] at hval
        refine ⟨Program.uses_perform ?_, fun plic =>
          ⟨(), plic.regs word ||| sourceMask source, ?_, fun j hj => ?_⟩⟩
        · rw [PlicOp.index, enableOffset_toNat, hword]
        · rw [exec_plicAmoor, enableOffset_toNat, hword]
        · rw [BitVec.getLsbD_or, hmask j hj, haccepted, decide_eq_true hle]
          rcases Decidable.em (j = i) with rfl | hne
          · simpa using hval
          · simp [hne]

end Driver

section Registers

/-- The table gives the source to the guest under its own number, or not at all. -/
def MapsIdentically (devs : Vector (Option MmioDev) maxDevs) (source : Int) : Prop :=
  virtToPhysIrq devs source = source ∨ virtToPhysIrq devs source = 0

/-- The sources that an access to the register is about. -/
def HasSource : VirtualReg → Int → Prop
  | .priority source, virtIrq => virtIrq = source
  | .pending group, virtIrq => virtIrq / 32 = group
  | .enable _ group, virtIrq => virtIrq / 32 = group
  | .threshold _, _ => False
  | .claim _, _ => True

/-- The bits of a register that a load in the context gets from the PLIC. -/
def shownBit (devs : Vector (Option MmioDev) maxDevs) (context : Nat) : VirtualReg → Nat → Bool
  | .priority source, _ => accepted (virtToPhysIrq devs source)
  | .pending group, i => accepted (virtToPhysIrq devs (group * 32 + i))
  | .enable other group, i => decide (context = other) &&
      (decide (context ≤ 15871) && accepted (virtToPhysIrq devs (group * 32 + i)))
  | .threshold other, _ => decide (context = other)
  | .claim _, _ => false

/-- The bits of a register that a store in the context passes on: the pending
bits cannot be written. -/
def storedBit (devs : Vector (Option MmioDev) maxDevs) (context : Nat) : VirtualReg → Nat → Bool
  | .pending _, _ => false
  | reg, i => shownBit devs context reg i

variable {devs : Vector (Option MmioDev) maxDevs} {offset ctx : Uint64} {context : Nat}

theorem ctx_eq_div_iff {base size : Uint64} (hlow : base.toNat ≤ offset.toNat) :
    ctx = (offset - base) / size ↔ ctx.toNat = (offset.toNat - base.toNat) / size.toNat := by
  rw [← BitVec.toNat_inj, BitVec.toNat_udiv, toNat_sub_literal hlow]

theorem MapsIdentically.group {group : Nat}
    (hdevs : ∀ source : Int, source / 32 = group → MapsIdentically devs source) {i : Nat}
    (hi : i < 32) : virtToPhysIrq devs (group * 32 + i) = (group * 32 + i : Nat) ∨
      virtToPhysIrq devs (group * 32 + i) = 0 := by
  have hmaps := hdevs (group * 32 + i) (by omega)
  simpa [MapsIdentically] using hmaps

/-- A group load is a load of the word if the driver reads its bits from there. -/
theorem readsWord_gatherGroup {group word : Nat} {get : Int → PlicM Uint32}
    {f : Plic → Int → Uint32} {shown : Nat → Bool}
    (hexec : ∀ irq plic, exec plicHandler (get irq) plic = (.ok (f plic irq), plic))
    (huses : ∀ i : Nat, i < 32 → (get (virtToPhysIrq devs (group * 32 + i))).Uses
      fun op : PlicOp => op = .read word)
    (hbits : ∀ i : Nat, i < 32 → ∀ plic, decide (f plic (virtToPhysIrq devs (group * 32 + i)) ≠ 0) =
      (shown i && (plic.regs word).getLsbD i)) :
    ReadsWord word shown (gatherGroup devs group get) := by
  refine ⟨Program.uses_foldlM (fun _ i hi => ?_) _, fun plic => ?_⟩
  · exact (huses i (List.mem_range.mp hi)).bind fun _ => Program.uses_done _ _
  · obtain ⟨val, hval, hword⟩ := exec_gatherGroup plic devs group get fun i => hexec _ plic
    exact ⟨val, hval, fun i hi => by rw [hword i hi, hbits i hi]⟩

theorem readsWord_pending {group : Nat} (halign : offset.toNat % 4 = 0)
    (h : Located offset (.pending group))
    (hdevs : ∀ source, HasSource (.pending group) source → MapsIdentically devs source) :
    ReadsWord (offset.toNat / 4) (shownBit devs context (.pending group))
      (handlePendingRegsLoad devs offset) := by
  obtain ⟨hlow, hhigh, rfl⟩ := h
  have hsub : (offset - 0x1000).toNat = offset.toNat - 0x1000 := toNat_sub_literal hlow
  have hword : ∀ i < 32, pendingWord ((offset.toNat - 0x1000) / 4 * 32 + i) = offset.toNat / 4 := by
    intro i hi
    simp only [pendingWord]
    omega
  rw [handlePendingRegsLoad, toInt_div_four (by omega), hsub]
  refine readsWord_gatherGroup (fun irq plic => exec_plicGetPending_int irq plic) (fun i hi => ?_)
    fun i hi plic => ?_
  · rw [← hword i hi]
    exact plicGetPending_touches (MapsIdentically.group hdevs hi)
  · exact masked_ne_zero_iff id plic (MapsIdentically.group hdevs hi) (hword i hi) (by omega)

theorem enableWord_of_located {ctx group : Nat} (halign : offset.toNat % 4 = 0)
    (h : Located offset (.enable ctx group)) {i : Nat} (hi : i < 32) :
    enableWord ctx (group * 32 + i) = offset.toNat / 4 := by
  obtain ⟨hlow, hhigh, rfl, rfl⟩ := h
  simp only [enableWord]
  omega

theorem enable_ctx_iff (ctx : Uint64) {context group : Nat}
    (h : Located offset (.enable context group)) :
    ctx = (offset - 0x2000) / 0x80 ↔ ctx.toNat = context := by
  obtain ⟨hlow, -, rfl, -⟩ := h
  have hbase : (0x2000 : Uint64).toNat ≤ offset.toNat := hlow
  exact ctx_eq_div_iff hbase

/-- The driver knows fewer contexts than the window of enable words has room
for; it answers for the others without an access. -/
theorem readsWord_enable {context group : Nat} (halign : offset.toNat % 4 = 0)
    (h : Located offset (.enable context group))
    (hdevs : ∀ source, HasSource (.enable context group) source → MapsIdentically devs source) :
    ReadsWord (offset.toNat / 4) (shownBit devs ctx.toNat (.enable context group))
      (handleEnableRegsLoad devs offset ctx ctx) := by
  have hword := fun i hi => enableWord_of_located (i := i) halign h hi
  have hctx := enable_ctx_iff ctx h
  obtain ⟨hlow, hhigh, hcontext, hgroup⟩ := h
  unfold handleEnableRegsLoad
  split
  · rename_i hne
    refine (readsWord_zero _).congr fun i _ => ?_
    rw [shownBit, decide_eq_false (hctx.not.mp hne), Bool.false_and]
  · rename_i heq
    have heq := hctx.mp (not_not.mp heq)
    rw [toInt_enable_group hlow hhigh (heq.trans hcontext), toInt_of_lt (by omega), heq, ← hgroup]
    refine readsWord_gatherGroup (exec_plicGetEnabled_int context) (fun i hi => ?_)
      fun i hi plic => ?_
    · rw [← hword i hi]
      exact plicGetEnabled_touches (MapsIdentically.group hdevs hi)
    · rw [shownBit, decide_eq_true rfl, Bool.true_and]
      exact masked_ne_zero_iff (fun hpassed => (Bool.and_eq_true_iff.mp hpassed).2) plic
        (MapsIdentically.group hdevs hi) (hword i hi) (by omega)

theorem writesWord_enable {context group : Nat} (halign : offset.toNat % 4 = 0)
    (h : Located offset (.enable context group))
    (hdevs : ∀ source, HasSource (.enable context group) source → MapsIdentically devs source)
    (val : Uint32) :
    WritesWord (offset.toNat / 4) (storedBit devs ctx.toNat (.enable context group)) val
      (handleEnableRegsStore devs offset val ctx ctx) := by
  have hword := fun i hi => enableWord_of_located (i := i) halign h hi
  have hctx := enable_ctx_iff ctx h
  obtain ⟨hlow, hhigh, hcontext, hgroup⟩ := h
  unfold handleEnableRegsStore
  split
  · rename_i hne
    refine (writesWord_pure _ val ()).congr fun i _ => ?_
    simp only [storedBit, shownBit, decide_eq_false (hctx.not.mp hne), Bool.false_and]
  · rename_i heq
    have heq := hctx.mp (not_not.mp heq)
    simp only
    rw [toInt_enable_group hlow hhigh (heq.trans hcontext), toInt_of_lt (by omega), heq, ← hgroup]
    refine (writesWord_foldlM (storedBit devs context (.enable context group))
      fun i hi => ?_).congr fun i hi => ?_
    · have hlt := List.mem_range.mp hi
      refine (writesWord_plicSetEnabled hlt (MapsIdentically.group hdevs hlt) (hword i hlt)
        (by omega) val).congr fun j _ => ?_
      rcases Decidable.em (j = i) with rfl | hne
      · simp only [storedBit, shownBit, decide_true, Bool.true_and]
      · rw [decide_eq_false hne, Bool.false_and, Bool.false_and]
    · rw [decide_eq_true (List.mem_range.mpr hi), Bool.true_and]

theorem readsWord_priority {source : Nat} (h : Located offset (.priority source))
    (hdevs : ∀ virtIrq, HasSource (.priority source) virtIrq → MapsIdentically devs virtIrq) :
    ReadsWord (offset.toNat / 4) (shownBit devs context (.priority source))
      (handlePriorityRegLoad devs offset) := by
  obtain ⟨hlt, rfl⟩ := h
  rw [handlePriorityRegLoad, toInt_div_four (by omega)]
  exact readsWord_plicGetPriority (hdevs _ rfl)

theorem writesWord_priority {source : Nat} (h : Located offset (.priority source))
    (hdevs : ∀ virtIrq, HasSource (.priority source) virtIrq → MapsIdentically devs virtIrq)
    (val : Uint32) :
    WritesWord (offset.toNat / 4) (storedBit devs context (.priority source)) val
      (handlePriorityRegStore devs offset val) := by
  obtain ⟨hlt, rfl⟩ := h
  rw [handlePriorityRegStore, toInt_div_four (by omega)]
  exact writesWord_plicSetPriority (hdevs _ rfl) val

theorem threshold_ctx_iff (ctx : Uint64) {context : Nat} (h : Located offset (.threshold context)) :
    ctx = (offset - 0x200000) / 0x1000 ↔ ctx.toNat = context := by
  have hbase : (0x200000 : Uint64).toNat ≤ offset.toNat := by
    rw [h.2]
    exact Nat.le_add_right _ _
  rw [ctx_eq_div_iff hbase, h.2]
  simp

theorem readsWord_threshold {context : Nat} (h : Located offset (.threshold context)) :
    ReadsWord (offset.toNat / 4) (shownBit devs ctx.toNat (.threshold context))
      (handleThresholdRegLoad offset ctx ctx) := by
  have hctx := threshold_ctx_iff ctx h
  obtain ⟨hlt, hoffset⟩ := h
  unfold handleThresholdRegLoad
  split
  · rename_i hne
    refine (readsWord_zero _).congr fun _ _ => ?_
    rw [shownBit, decide_eq_false (hctx.not.mp hne)]
  · rename_i heq
    have heq := hctx.mp (not_not.mp heq)
    have hword : thresholdOffset context = (offset.toNat / 4 : Nat) := by
      simp only [thresholdOffset]
      omega
    rw [toInt_of_lt (by omega), heq, plicGetThreshold, if_neg (by omega), hword]
    refine (readsWord_plicRead ?_).congr fun _ _ => decide_eq_true rfl
    apply claimContext_eq_none
    intro other
    simp only [claimWord]
    omega

theorem writesWord_threshold {context : Nat} (h : Located offset (.threshold context))
    (val : Uint32) :
    WritesWord (offset.toNat / 4) (storedBit devs ctx.toNat (.threshold context)) val
      (handleThresholdRegStore offset ctx ctx (val.setWidth 64)) := by
  have hctx := threshold_ctx_iff ctx h
  obtain ⟨hlt, hoffset⟩ := h
  unfold handleThresholdRegStore
  split
  · rename_i hne
    refine (writesWord_pure _ val ()).congr fun _ _ => ?_
    simp only [storedBit, shownBit, decide_eq_false (hctx.not.mp hne)]
  · rename_i heq
    have heq := hctx.mp (not_not.mp heq)
    have hword : thresholdOffset context = (offset.toNat / 4 : Nat) := by
      simp only [thresholdOffset]
      omega
    rw [toInt_of_lt (by omega), heq, plicSetThreshold, if_neg (by omega), hword,
      BitVec.setWidth_setWidth_of_le _ (by decide), BitVec.setWidth_eq]
    refine (writesWord_plicWrite ?_ val).congr fun _ _ => ?_
    · apply claimContext_eq_none
      intro other
      simp only [claimWord]
      omega
    · simp only [storedBit, shownBit, decide_true]

/-- A completion of a source that is mapped is passed on as it is. -/
theorem handleCompleteRegStore_touches {context : Nat} (h : Located offset (.claim context))
    {hart : HartState} {val : Uint32} (hdevs : MapsIdentically hart.vcpu.conf.devices (toInt val)) :
    (handleCompleteRegStore hart offset ctx ctx val).Uses fun op : PlicOp =>
      op = .write (offset.toNat / 4)
        (if virtToPhysIrq hart.vcpu.conf.devices (toInt val) = toInt val then val else 0) := by
  obtain ⟨hlt, hoffset⟩ := h
  have hbase : (0x200004 : Uint64).toNat ≤ offset.toNat := by
    rw [hoffset]
    exact Nat.le_add_right _ _
  have hvalue : ofInt (virtToPhysIrq hart.vcpu.conf.devices (toInt val)) =
      if virtToPhysIrq hart.vcpu.conf.devices (toInt val) = toInt val then val else 0 := by
    split
    · rename_i hmap
      rw [hmap, toInt, BitVec.setWidth_eq, ofInt, BitVec.ofInt_toInt]
    · rename_i hmap
      rw [hdevs.resolve_left hmap]
      rfl
  rw [← hvalue]
  unfold handleCompleteRegStore
  split
  · trivial
  · rename_i heq
    have heq : ctx.toNat = context := by
      rw [(ctx_eq_div_iff hbase).mp (not_not.mp heq), hoffset]
      simp
    have hword : (claimOffset context).toNat = offset.toNat / 4 := by
      rw [claimOffset_toNat, claimWord]
      omega
    have hint : toInt ctx = context := by
      rw [toInt_of_lt (by omega), heq]
    refine Program.uses_ite ?_ trivial
    rw [hint, plicComplete, if_neg (by omega), plicWrite, hword]
    refine Program.Uses.bind ?_ fun _ => trivial
    exact Program.uses_perform rfl

end Registers

section Emulation

variable {hartid offset : Uint64} {hart : HartState} {reg : VirtualReg}

/-- The hart's guest runs in the context of the same number. -/
def ContextsCoincide (hartid : Uint64) (vcpu : Vcpu) : Prop := 2 * vcpu.vhartid + 1 = 2 * hartid + 1

theorem readsWord_loadValue {vcpu : Vcpu} (halign : offset.toNat % 4 = 0)
    (hctx : ContextsCoincide hartid vcpu) (h : Located offset reg)
    (hreg : ∀ context, reg ≠ .claim context)
    (hdevs : ∀ source, HasSource reg source → MapsIdentically vcpu.conf.devices source) :
    ReadsWord (offset.toNat / 4) (shownBit vcpu.conf.devices (2 * hartid + 1).toNat reg)
      (loadValue hartid vcpu offset) := by
  unfold loadValue
  simp only [isAccessToPriorityReg_iff, isAccessToPendingRegs_iff, isAccessToEnableRegs_iff,
    isAccessToThresholdReg_iff, isAccessToClaimCompleteReg_iff]
  rw [show 2 * vcpu.vhartid + 1 = 2 * hartid + 1 from hctx]
  cases reg with
  | priority source =>
      rw [if_pos h.1]
      exact readsWord_priority h hdevs
  | pending group =>
      obtain ⟨hlow, hhigh, -⟩ := id h
      rw [if_neg (by omega), if_pos ⟨hlow, hhigh⟩]
      exact readsWord_pending halign h hdevs
  | enable context group =>
      obtain ⟨hlow, hhigh, -⟩ := id h
      rw [if_neg (by omega), if_neg (by omega), if_pos ⟨hlow, hhigh⟩]
      exact readsWord_enable halign h hdevs
  | threshold context =>
      obtain ⟨hlt, hoffset⟩ := id h
      rw [if_neg (by omega), if_neg (by omega), if_neg (by omega), if_pos ⟨context, hlt, hoffset⟩]
      exact readsWord_threshold h
  | claim context => exact absurd rfl (hreg context)

theorem loadValue_claim {context : Nat} {vcpu : Vcpu} (h : Located offset (.claim context)) :
    loadValue hartid vcpu offset = pure (handleClaimRegLoad vcpu offset (2 * vcpu.vhartid + 1)) := by
  obtain ⟨hlt, hoffset⟩ := h
  unfold loadValue
  simp only [isAccessToPriorityReg_iff, isAccessToPendingRegs_iff, isAccessToEnableRegs_iff,
    isAccessToThresholdReg_iff, isAccessToClaimCompleteReg_iff]
  rw [if_neg (by omega), if_neg (by omega), if_neg (by omega), if_neg (by omega),
    if_pos ⟨context, hlt, hoffset⟩]

theorem writesWord_storeValue (halign : offset.toNat % 4 = 0)
    (hctx : ContextsCoincide hartid hart.vcpu) (h : Located offset reg)
    (hreg : ∀ context, reg ≠ .claim context)
    (hdevs : ∀ source, HasSource reg source → MapsIdentically hart.vcpu.conf.devices source)
    (val : Uint32) :
    WritesWord (offset.toNat / 4) (storedBit hart.vcpu.conf.devices (2 * hartid + 1).toNat reg) val
      (storeValue hartid hart offset val) := by
  unfold storeValue
  simp only [isAccessToPriorityReg_iff, isAccessToPendingRegs_iff, isAccessToEnableRegs_iff,
    isAccessToThresholdReg_iff, isAccessToClaimCompleteReg_iff]
  rw [show 2 * hart.vcpu.vhartid + 1 = 2 * hartid + 1 from hctx]
  cases reg with
  | priority source =>
      rw [if_pos h.1]
      exact (writesWord_priority h hdevs val).bind_pure hart
  | pending group =>
      obtain ⟨hlow, hhigh, -⟩ := id h
      rw [if_neg (by omega), if_pos ⟨hlow, hhigh⟩]
      exact writesWord_pure _ val hart
  | enable context group =>
      obtain ⟨hlow, hhigh, -⟩ := id h
      rw [if_neg (by omega), if_neg (by omega), if_pos ⟨hlow, hhigh⟩]
      exact (writesWord_enable halign h hdevs val).bind_pure hart
  | threshold context =>
      obtain ⟨hlt, hoffset⟩ := id h
      rw [if_neg (by omega), if_neg (by omega), if_neg (by omega), if_pos ⟨context, hlt, hoffset⟩]
      exact (writesWord_threshold h val).bind_pure hart
  | claim context => exact absurd rfl (hreg context)

theorem storeValue_claim {context : Nat} (h : Located offset (.claim context)) (val : Uint32) :
    storeValue hartid hart offset val = handleCompleteRegStore hart offset
      (2 * hart.vcpu.vhartid + 1) (2 * hartid + 1) val := by
  obtain ⟨hlt, hoffset⟩ := h
  unfold storeValue
  simp only [isAccessToPriorityReg_iff, isAccessToPendingRegs_iff, isAccessToEnableRegs_iff,
    isAccessToThresholdReg_iff, isAccessToClaimCompleteReg_iff]
  rw [if_neg (by omega), if_neg (by omega), if_neg (by omega), if_neg (by omega),
    if_pos ⟨context, hlt, hoffset⟩]

/-- An emulated access is to the word at the offset.  A load of the claim
register is to no word; a completion passes the source on. -/
structure WordAgreement (hartid : Uint64) (hart : HartState) (instr : Instr) (reg : VirtualReg)
    (word : Nat) : Prop where
  load_touches : (emulateLoad hartid hart instr).Uses fun op : PlicOp =>
    op = .read word ∧ ∀ context, reg ≠ .claim context
  load_bits : (∀ context, reg ≠ .claim context) → ∀ plic, ∃ val,
    exec plicHandler (emulateLoad hartid hart instr) plic =
        (.ok (writeLoaded hart instr val), plic) ∧
      ∀ i < 32, val.getLsbD i = (shownBit hart.vcpu.conf.devices (2 * hartid + 1).toNat reg i &&
        (plic.regs word).getLsbD i)
  store : (∀ context, reg ≠ .claim context) →
    WritesWord word (storedBit hart.vcpu.conf.devices (2 * hartid + 1).toNat reg)
      ((hart.vcpu.regs instr.rs2).setWidth 32) (emulateStore hartid hart instr)
  complete : ∀ context, reg = .claim context → ∀ val,
    val = (hart.vcpu.regs instr.rs2).setWidth 32 →
      (emulateStore hartid hart instr).Uses fun op : PlicOp => op = .write word
        (if virtToPhysIrq hart.vcpu.conf.devices (toInt val) = toInt val then val else 0)

theorem wordAgreement_of_located {instr : Instr} (haddr : instr.addr - dtbPlic = offset)
    (halign : offset.toNat % 4 = 0) (h : Located offset reg)
    (hctx : ContextsCoincide hartid hart.vcpu)
    (hdevs : ∀ source, HasSource reg source → MapsIdentically hart.vcpu.conf.devices source) :
    WordAgreement hartid hart instr reg (offset.toNat / 4) := by
  constructor
  · rw [emulateLoad, haddr]
    refine Program.Uses.bind ?_ fun _ => trivial
    rcases Classical.em (∀ context, reg ≠ .claim context) with hreg | hreg
    · exact (readsWord_loadValue halign hctx h hreg hdevs).touches.mono fun op hop => ⟨hop, hreg⟩
    · simp only [not_forall, ne_eq, not_not] at hreg
      obtain ⟨context, rfl⟩ := hreg
      rw [loadValue_claim h]
      trivial
  · intro hreg plic
    obtain ⟨val, hexec, hbits⟩ := (readsWord_loadValue halign hctx h hreg hdevs).bits plic
    refine ⟨val, ?_, hbits⟩
    rw [emulateLoad, haddr, exec_bind_ok _ hexec]
    rfl
  · intro hreg
    have hstore := writesWord_storeValue halign hctx h hreg hdevs
      ((hart.vcpu.regs instr.rs2).setWidth 32)
    rw [emulateStore, haddr]
    refine (hstore.bind fun _ => writesWord_pure _ _ _).congr fun _ _ => ?_
    exact (Bool.or_false _).symm
  · rintro context rfl val rfl
    rw [emulateStore, haddr, storeValue_claim h, show 2 * hart.vcpu.vhartid + 1 = 2 * hartid + 1
      from hctx]
    exact (handleCompleteRegStore_touches h (hdevs _ trivial)).bind fun _ => trivial

/-- The tests of `emulate_load` and `emulate_store`, in their order. -/
def classifiers (offset : Uint64) : List Bool :=
  [isAccessToPriorityReg offset, isAccessToPendingRegs offset, isAccessToEnableRegs offset,
    isAccessToThresholdReg offset, isAccessToClaimCompleteReg offset]

theorem not_located_of_classifiers (h : true ∉ classifiers offset) (reg : VirtualReg) :
    ¬ Located offset reg := by
  simp only [classifiers, List.mem_cons, List.not_mem_nil, or_false, not_or, eq_comm (a := true),
    isAccessToPriorityReg_iff, isAccessToPendingRegs_iff, isAccessToEnableRegs_iff,
    isAccessToThresholdReg_iff, isAccessToClaimCompleteReg_iff] at h
  obtain ⟨hpriority, hpending, henable, hthreshold, hclaim⟩ := h
  intro hloc
  cases reg with
  | priority source => exact hpriority hloc.1
  | pending group => exact hpending ⟨hloc.1, hloc.2.1⟩
  | enable context group => exact henable ⟨hloc.1, hloc.2.1⟩
  | threshold context => exact hthreshold ⟨context, hloc⟩
  | claim context => exact hclaim ⟨context, hloc⟩

theorem count_true_le_one {tests : List Bool}
    (h : tests.Pairwise fun test test' => ¬ (test = true ∧ test' = true)) :
    tests.count true ≤ 1 := by
  induction h with
  | nil => exact Nat.zero_le 1
  | @cons test tests hhead _ ih =>
      cases test with
      | false => simpa using ih
      | true =>
          have hnone : true ∉ tests := fun hmem => hhead true hmem ⟨rfl, rfl⟩
          rw [List.count_cons_self, List.count_eq_zero.mpr hnone]

theorem classifiers_count_le (offset : Uint64) : (classifiers offset).count true ≤ 1 := by
  apply count_true_le_one
  simp only [classifiers, List.pairwise_cons, List.mem_cons, List.not_mem_nil, or_false,
    forall_eq_or_imp, forall_eq, isAccessToPriorityReg_iff, isAccessToPendingRegs_iff,
    isAccessToEnableRegs_iff, isAccessToThresholdReg_iff, isAccessToClaimCompleteReg_iff]
  refine ⟨⟨?_, ?_, ?_, ?_⟩, ⟨?_, ?_, ?_⟩, ⟨?_, ?_⟩, ?_, nofun, .nil⟩ <;> omega

end Emulation

/-- The two descriptions of the register layout agree on every word. -/
theorem emulation_agrees_with_driver (offset : Uint64) (halign : offset.toNat % 4 = 0)
    (hwindow : offset < dtbPlicSize) :
    (classifiers offset).count true ≤ 1 ∧
      (isAccessToPriorityReg offset = true ↔ offset.toNat < 0x1000) ∧
      (isAccessToPendingRegs offset = true ↔ 0x1000 ≤ offset.toNat ∧ offset.toNat < 0x1080) ∧
      (isAccessToEnableRegs offset = true ↔ 0x2000 ≤ offset.toNat ∧ offset.toNat < 0x200000) ∧
      (isAccessToThresholdReg offset = true ↔
        ∃ c, 0x200000 + 0x1000 * c < dtbPlicSize.toNat ∧ offset.toNat = 0x200000 + 0x1000 * c) ∧
      (isAccessToClaimCompleteReg offset = true ↔
        ∃ c, 0x200004 + 0x1000 * c < dtbPlicSize.toNat ∧ offset.toNat = 0x200004 + 0x1000 * c) ∧
      ∀ (hartid : Uint64) (hart : HartState) (instr : Instr), instr.addr = dtbPlic + offset →
        (true ∉ classifiers offset →
          emulateLoad hartid hart instr = .panic "Bad PLIC access" ∧
            emulateStore hartid hart instr = .panic "Bad PLIC access") ∧
        ∀ reg, Located offset reg → ContextsCoincide hartid hart.vcpu →
          (∀ source, HasSource reg source → MapsIdentically hart.vcpu.conf.devices source) →
            WordAgreement hartid hart instr reg (offset.toNat / 4) := by
  have hwindow : offset.toNat < 0x600000 := hwindow
  have hsize : dtbPlicSize.toNat = 0x600000 := rfl
  refine ⟨classifiers_count_le offset, isAccessToPriorityReg_iff, isAccessToPendingRegs_iff,
    isAccessToEnableRegs_iff, ?_, ?_, fun hartid hart instr haddr => ⟨fun hnone => ?_, ?_⟩⟩
  · rw [isAccessToThresholdReg_iff, hsize]
    refine exists_congr fun c => and_congr_left fun hoffset => ?_
    omega
  · rw [isAccessToClaimCompleteReg_iff, hsize]
    refine exists_congr fun c => and_congr_left fun hoffset => ?_
    omega
  · have hoffset : instr.addr - dtbPlic = offset := by
      rw [haddr, BitVec.add_comm, BitVec.add_sub_cancel]
    have hloc := not_located_of_classifiers hnone
    rw [emulateLoad, emulateStore, hoffset, loadValue_of_not_located hloc,
      storeValue_of_not_located hloc]
    exact ⟨rfl, rfl⟩
  · intro reg hloc hctx hdevs
    have hoffset : instr.addr - dtbPlic = offset := by
      rw [haddr, BitVec.add_comm, BitVec.add_sub_cancel]
    exact wordAgreement_of_located hoffset halign hloc hctx hdevs

section Sample

theorem sampleConf_mapsIdentically (source : Int) : MapsIdentically sampleConf.devices source := by
  rcases virtToPhysIrq_cases sampleConf source with ⟨dev, hdev, hvirt, hphys⟩ | ⟨-, hnone⟩
  · left
    rw [sampleConf_devs] at hdev
    simp only [List.mem_cons, List.not_mem_nil, or_false] at hdev
    rcases hdev with rfl | rfl <;> exact hphys.trans hvirt
  · exact .inr hnone

/-- The first hart of the sample machine, about to access its first enable word. -/
def enablingHart : HartState where
  vcpu := initVcpu 0 sampleConf
  hvip := 0
  sepc := 0x80000000

theorem emulation_agrees_enable_word :
    (0x2080 : Uint64).toNat % 4 = 0 ∧ (0x2080 : Uint64) < dtbPlicSize ∧
      WordAgreement 0 enablingHart { loadPriority with addr := dtbPlic + 0x2080 } (.enable 1 0)
        0x820 :=
  ⟨by decide, by decide,
    ((emulation_agrees_with_driver 0x2080 (by decide) (by decide)).2.2.2.2.2.2 0 enablingHart _
      rfl).2 (.enable 1 0) (by decide) (by unfold ContextsCoincide; decide)
        fun source _ => sampleConf_mapsIdentically source⟩

end Sample

end RiscvHypervisor.PlicMemoryMap
