import Mathlib.Logic.Function.Basic
import Mathlib.Tactic.Common

/-!
Straight-line code of a 64-bit RISC-V hart: moves between registers, control
registers and memory.  Blocks that store or load a list of registers at their
own places of an array.
-/

namespace RiscvHypervisor.RiscvAssembly

abbrev Word := BitVec 64

abbrev Reg := BitVec 5

/-- A hart with the control registers `C`.  Memory is addressed by words. -/
structure Cpu (C : Type) where
  x : Reg → Word
  csr : C → Word
  mem : Word → Word

inductive Instruction (C : Type)
  | csrr (rd : Reg) (csr : C)
  | csrrw (rd : Reg) (csr : C) (rs : Reg)
  | ld (rd : Reg) (offset : Word) (base : Reg)
  | sd (rs : Reg) (offset : Word) (base : Reg)
  | mv (rd rs : Reg)
  | li (rd : Reg) (value : Word)
  | srli (rd rs : Reg) (shift : Nat)

section Execution

variable {C : Type}

/-- Register 0 is wired to zero. -/
def Cpu.get (cpu : Cpu C) (r : Reg) : Word := if r = 0 then 0 else cpu.x r

def Cpu.set (cpu : Cpu C) (r : Reg) (value : Word) : Cpu C :=
  { cpu with x := Function.update cpu.x r value }

variable [DecidableEq C]

def Cpu.setCsr (cpu : Cpu C) (csr : C) (value : Word) : Cpu C :=
  { cpu with csr := Function.update cpu.csr csr value }

def execute (cpu : Cpu C) : Instruction C → Cpu C
  | .csrr rd csr => cpu.set rd (cpu.csr csr)
  | .csrrw rd csr rs => (cpu.setCsr csr (cpu.get rs)).set rd (cpu.csr csr)
  | .ld rd offset base => cpu.set rd (cpu.mem (cpu.get base + offset))
  | .sd rs offset base =>
      { cpu with mem := Function.update cpu.mem (cpu.get base + offset) (cpu.get rs) }
  | .mv rd rs => cpu.set rd (cpu.get rs)
  | .li rd value => cpu.set rd value
  | .srli rd rs shift => cpu.set rd (cpu.get rs >>> shift)

def executeAll (code : List (Instruction C)) (cpu : Cpu C) : Cpu C := code.foldl execute cpu

@[simp] theorem executeAll_nil (cpu : Cpu C) : executeAll [] cpu = cpu := rfl

@[simp] theorem executeAll_cons (i : Instruction C) (code : List (Instruction C)) (cpu : Cpu C) :
    executeAll (i :: code) cpu = executeAll code (execute cpu i) := rfl

theorem executeAll_append (code code' : List (Instruction C)) (cpu : Cpu C) :
    executeAll (code ++ code') cpu = executeAll code' (executeAll code cpu) :=
  List.foldl_append

omit [DecidableEq C] in
theorem Cpu.get_of_ne {r : Reg} (h : r ≠ 0) (cpu : Cpu C) : cpu.get r = cpu.x r := if_neg h

end Execution

section Blocks

variable {C : Type} [DecidableEq C]

/-- The place of a register in an array of all registers. -/
def place (base : Word) (r : Reg) : Word := base + r.setWidth 64 * 8

theorem place_inj {base : Word} {r r' : Reg} (h : place base r = place base r') : r = r' := by
  have hmul : r.setWidth 64 * 8 = r'.setWidth 64 * 8 := by
    have hsub := congrArg (· - base) h
    simpa [place, BitVec.add_comm base, BitVec.add_sub_cancel] using hsub
  have hnat := congrArg BitVec.toNat hmul
  have hr := r.isLt
  have hr' := r'.isLt
  rw [BitVec.toNat_mul, BitVec.toNat_mul, BitVec.toNat_setWidth, BitVec.toNat_setWidth,
    show (8 : Word).toNat = 8 from rfl] at hnat
  exact BitVec.eq_of_toNat_eq (by omega)

/-- Store the registers, each at its place. -/
def saveBlock (base : Reg) (regs : List Reg) : List (Instruction C) :=
  regs.map fun r => .sd r (r.setWidth 64 * 8) base

/-- Load the registers, each from its place. -/
def restoreBlock (base : Reg) (regs : List Reg) : List (Instruction C) :=
  regs.map fun r => .ld r (r.setWidth 64 * 8) base

variable (base : Reg) (regs : List Reg) (cpu : Cpu C)

theorem executeAll_saveBlock_x : (executeAll (saveBlock base regs) cpu).x = cpu.x := by
  induction regs generalizing cpu with
  | nil => rfl
  | cons r regs ih => exact ih _

theorem executeAll_saveBlock_csr : (executeAll (saveBlock base regs) cpu).csr = cpu.csr := by
  induction regs generalizing cpu with
  | nil => rfl
  | cons r regs ih => exact ih _

/-- The block writes only the places of its registers. -/
theorem executeAll_saveBlock_mem_of_ne {a : Word}
    (h : ∀ r ∈ regs, a ≠ place (cpu.get base) r) :
    (executeAll (saveBlock base regs) cpu).mem a = cpu.mem a := by
  induction regs generalizing cpu with
  | nil => rfl
  | cons r regs ih =>
      have hrest := ih (execute cpu (.sd r (r.setWidth 64 * 8) base))
        fun r' hr' => h r' (by simp [hr'])
      exact hrest.trans (Function.update_of_ne (h r (by simp)) _ _)

theorem executeAll_saveBlock_mem {r : Reg} (h : r ∈ regs) :
    (executeAll (saveBlock base regs) cpu).mem (place (cpu.get base) r) = cpu.get r := by
  induction regs generalizing cpu with
  | nil => cases h
  | cons r' regs ih =>
      by_cases hin : r ∈ regs
      · exact ih (execute cpu (.sd r' (r'.setWidth 64 * 8) base)) hin
      · obtain rfl : r = r' := by simpa [hin] using h
        refine (executeAll_saveBlock_mem_of_ne base regs _ fun r' hr' heq => ?_).trans ?_
        · exact hin (place_inj heq ▸ hr')
        · exact Function.update_self _ _ _

theorem executeAll_restoreBlock_csr : (executeAll (restoreBlock base regs) cpu).csr = cpu.csr := by
  induction regs generalizing cpu with
  | nil => rfl
  | cons r regs ih => exact ih _

theorem executeAll_restoreBlock_mem : (executeAll (restoreBlock base regs) cpu).mem = cpu.mem := by
  induction regs generalizing cpu with
  | nil => rfl
  | cons r regs ih => exact ih _

theorem executeAll_restoreBlock_x_of_notMem {r : Reg} (h : r ∉ regs) :
    (executeAll (restoreBlock base regs) cpu).x r = cpu.x r := by
  induction regs generalizing cpu with
  | nil => rfl
  | cons r' regs ih =>
      rw [List.mem_cons, not_or] at h
      obtain ⟨hne, hnotMem⟩ := h
      exact (ih _ hnotMem).trans (Function.update_of_ne hne _ _)

/-- Every register of the block has what is at its place. -/
theorem executeAll_restoreBlock_x {base : Reg} {regs : List Reg} (hbase : base ∉ regs)
    (cpu : Cpu C) {r : Reg} (h : r ∈ regs) :
    (executeAll (restoreBlock base regs) cpu).x r = cpu.mem (place (cpu.get base) r) := by
  induction regs generalizing cpu with
  | nil => cases h
  | cons r' regs ih =>
      rw [List.mem_cons, not_or] at hbase
      obtain ⟨hne, hnotMem⟩ := hbase
      by_cases hin : r ∈ regs
      · refine (ih hnotMem _ hin).trans ?_
        have hget : (execute cpu (.ld r' (r'.setWidth 64 * 8) base)).get base = cpu.get base := by
          simp only [Cpu.get, execute, Cpu.set, Function.update_of_ne hne]
        rw [hget]
        rfl
      · obtain rfl : r = r' := by simpa [hin] using h
        exact (executeAll_restoreBlock_x_of_notMem base regs _ hin).trans
          (Function.update_self _ _ _)

end Blocks

end RiscvHypervisor.RiscvAssembly
