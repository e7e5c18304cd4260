import RiscvHypervisor.EffectProgram
import RiscvHypervisor.MachineTypes

/-!
The driver of `driver/plic.c`, as programs over single accesses to the words of
the physical PLIC, and the PLIC itself as the device that answers them.
-/

namespace RiscvHypervisor.PlicDriver

open RiscvHypervisor.EffectProgram
open RiscvHypervisor.MachineTypes

/-- An access to `plic[index]`. -/
inductive PlicOp
  | read (index : Nat)
  | write (index : Nat) (value : Uint32)
  | amoand (index : Nat) (mask : Uint32)
  | amoor (index : Nat) (mask : Uint32)
  deriving DecidableEq, Repr

/-- The word that an access is to. -/
def PlicOp.index : PlicOp → Nat
  | .read index => index
  | .write index _ => index
  | .amoand index _ => index
  | .amoor index _ => index

abbrev plicEffect : Effect where
  Op := PlicOp
  Answer
    | .read _ => Uint32
    | .write _ _ => Unit
    | .amoand _ _ => Unit
    | .amoor _ _ => Unit

abbrev PlicM := Program plicEffect

def plicRead (index : Int) : PlicM Uint32 :=
  Program.perform (E := plicEffect) (.read index.toNat)

def plicWrite (index : Int) (value : Uint32) : PlicM Unit :=
  Program.perform (E := plicEffect) (.write index.toNat value)

def plicAmoand (index : Int) (mask : Uint32) : PlicM Unit :=
  Program.perform (E := plicEffect) (.amoand index.toNat mask)

def plicAmoor (index : Int) (mask : Uint32) : PlicM Unit :=
  Program.perform (E := plicEffect) (.amoor index.toNat mask)

/-- `1 << interrupt_source % (sizeof(uint32) * 8)`. -/
def sourceMask (interruptSource : Int) : Uint32 := (1 : Uint32) <<< (interruptSource % 32).toNat

/-- The index of the enable word of a context that holds a source. -/
def enableOffset (context interruptSource : Int) : Int :=
  0x2000 / 4 + 1024 / 32 * context + interruptSource / 32

def thresholdOffset (context : Int) : Int := 0x200000 / 4 + 0x1000 / 4 * context

def claimOffset (context : Int) : Int := 0x200004 / 4 + 0x1000 / 4 * context

def plicGetPriority (interruptSource : Int) : PlicM Uint32 :=
  if interruptSource < 1 ∨ 1023 < interruptSource then
    pure 0
  else
    plicRead interruptSource

def plicSetPriority (interruptSource : Int) (priority : Uint32) : PlicM Unit :=
  if interruptSource < 1 ∨ 1023 < interruptSource then
    pure ()
  else
    plicWrite interruptSource priority

def plicGetPending (interruptSource : Int) : PlicM Uint32 :=
  if interruptSource < 1 ∨ 1023 < interruptSource then
    pure 0
  else do
    let word ← plicRead (0x1000 / 4 + interruptSource / 32)
    pure (word &&& sourceMask interruptSource)

def plicGetEnabled (context interruptSource : Int) : PlicM Uint32 :=
  if interruptSource < 1 ∨ 1023 < interruptSource then
    pure 0
  else if context < 0 ∨ 15871 < context then
    pure 0
  else do
    let word ← plicRead (enableOffset context interruptSource)
    pure (word &&& sourceMask interruptSource)

def plicSetEnabled (context interruptSource enable : Int) : PlicM Unit :=
  if interruptSource < 1 ∨ 1023 < interruptSource then
    pure ()
  else if context < 0 ∨ 15871 < context then
    pure ()
  else if enable = 0 then
    plicAmoand (enableOffset context interruptSource) (~~~sourceMask interruptSource)
  else
    plicAmoor (enableOffset context interruptSource) (sourceMask interruptSource)

def plicGetThreshold (context : Int) : PlicM Uint32 :=
  if context < 0 ∨ 15871 < context then
    pure 0
  else
    plicRead (thresholdOffset context)

def plicSetThreshold (context : Int) (threshold : Uint32) : PlicM Unit :=
  if context < 0 ∨ 15871 < context then
    pure ()
  else
    plicWrite (thresholdOffset context) threshold

def plicClaim (context : Int) : PlicM Uint32 :=
  if context < 0 ∨ 15871 < context then
    pure 0
  else
    plicRead (claimOffset context)

def plicComplete (context : Int) (interruptId : Uint32) : PlicM Unit :=
  if context < 0 ∨ 15871 < context then
    pure ()
  else
    plicWrite (claimOffset context) interruptId

/-- The physical PLIC.  The priority, pending, enable and threshold words are
storage.  The claim register of a context returns the source on offer there;
`claimed` holds the sources returned and not completed since. -/
structure Plic where
  regs : Nat → Uint32
  offer : Nat → Uint32
  claimed : Nat → Finset Uint32

/-- A PLIC after reset. -/
def resetPlic : Plic where
  regs := fun _ => 0
  offer := fun _ => 0
  claimed := fun _ => ∅

/-- The context whose claim/complete register is at this word. -/
def claimContext (index : Nat) : Option Nat :=
  if 0x80001 ≤ index ∧ (index - 0x80001) % 0x400 = 0 then
    some ((index - 0x80001) / 0x400)
  else
    none

def pendingWord (source : Nat) : Nat := 0x400 + source / 32

namespace Plic

def setReg (plic : Plic) (index : Nat) (value : Uint32) : Plic :=
  { plic with regs := Function.update plic.regs index value }

@[simp] theorem setReg_same (plic : Plic) (index : Nat) (value : Uint32) :
    (plic.setReg index value).regs index = value := by
  simp [setReg]

theorem setReg_of_ne {index index' : Nat} (h : index' ≠ index) (plic : Plic) (value : Uint32) :
    (plic.setReg index value).regs index' = plic.regs index' := by
  simp [setReg, h]

/-- A claim takes the source from the pending ones and marks it as claimed. -/
def claim (plic : Plic) (context : Nat) : Plic :=
  let irq := plic.offer context
  { regs :=
      if irq ≠ 0 ∧ irq.toNat < 1024 then
        Function.update plic.regs (pendingWord irq.toNat)
          (plic.regs (pendingWord irq.toNat) &&& ~~~sourceMask irq.toNat)
      else
        plic.regs
    offer := Function.update plic.offer context 0
    claimed :=
      if irq ≠ 0 then
        Function.update plic.claimed context (insert irq (plic.claimed context))
      else
        plic.claimed }

def complete (plic : Plic) (context : Nat) (irq : Uint32) : Plic :=
  { plic with
    claimed := Function.update plic.claimed context ((plic.claimed context).erase irq) }

end Plic

def plicHandler : Handler plicEffect Plic
  | .read index, plic =>
      match claimContext index with
      | some context => (plic.offer context, plic.claim context)
      | none => (plic.regs index, plic)
  | .write index value, plic =>
      match claimContext index with
      | some context => ((), plic.complete context value)
      | none => ((), plic.setReg index value)
  | .amoand index mask, plic => ((), plic.setReg index (plic.regs index &&& mask))
  | .amoor index mask, plic => ((), plic.setReg index (plic.regs index ||| mask))

end RiscvHypervisor.PlicDriver
