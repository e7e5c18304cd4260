import Mathlib.Data.BitVec
import Mathlib.Data.Nat.Bitwise
import Mathlib.Tactic.Common

/-!
The integer types of `types.h`, the platform constants of `dtb.h` and the
address macros of `memory.h`.  A C `int` is an `Int`; a conversion to or from
it is written out.
-/

namespace RiscvHypervisor.MachineTypes

abbrev Uint32 := BitVec 32

abbrev Uint64 := BitVec 64

/-- The conversion of an unsigned value to `int`. -/
def toInt {w : Nat} (x : BitVec w) : Int := (x.setWidth 32).toInt

/-- The conversion of an `int` to `uint32`. -/
def ofInt (x : Int) : Uint32 := BitVec.ofInt 32 x

def dtbMemory : Uint64 := 0x80000000
def dtbMemorySize : Uint64 := 0x10000000
def dtbMemoryEnd : Uint64 := dtbMemory + dtbMemorySize
def dtbNrCpus : Nat := 2

instance : NeZero dtbNrCpus := ⟨by decide⟩

def dtbFlash : Uint64 := 0x20000000
def dtbPlatformBus : Uint64 := 0x4000000
def dtbRtc : Uint64 := 0x101000
def dtbSerial : Uint64 := 0x10000000
def dtbVirtio0 : Uint64 := 0x10001000
def dtbVirtioSize : Uint64 := 0x1000
def dtbPci : Uint64 := 0x30000000
def dtbPciSize : Uint64 := 0x10000000
def dtbPciIo : Uint64 := 0x3000000
def dtbPlic : Uint64 := 0xc000000
def dtbPlicSize : Uint64 := 0x600000
def dtbClint : Uint64 := 0x2000000
def dtbClintSize : Uint64 := 0x10000

def pageShift : Nat := 12
def pageSize : Uint64 := (1 : Uint64) <<< pageShift

def vasKernel : Uint64 := 0xffffffc000000000
def vasCpuStruct : Uint64 := 0xffffffc040000000
def vasRam : Uint64 := 0xffffffe000000000

/-- Linear RAM address to physical address. -/
def kpa2pa (kpa : Uint64) : Uint64 := (kpa &&& ~~~vasRam) + dtbMemory

/-- Physical address to linear RAM address. -/
def pa2kpa (pa : Uint64) : Uint64 := (pa - dtbMemory) ||| vasRam

/-- Kernel image address to physical address. -/
def kva2pa (kva : Uint64) : Uint64 := kva - vasKernel + dtbMemory

def pa2kva (pa : Uint64) : Uint64 := pa - dtbMemory + vasKernel

/-- Kernel image address to linear RAM address. -/
def kva2kpa (kva : Uint64) : Uint64 := kva - vasKernel + vasRam

def pgroundup (a : Uint64) : Uint64 := (a + pageSize - 1) &&& ~~~(pageSize - 1)

def levels : Nat := 3

def pteV : Uint64 := (1 : Uint64) <<< 0
def pteR : Uint64 := (1 : Uint64) <<< 1
def pteW : Uint64 := (1 : Uint64) <<< 2
def pteX : Uint64 := (1 : Uint64) <<< 3
def pteU : Uint64 := (1 : Uint64) <<< 4
def pteG : Uint64 := (1 : Uint64) <<< 5
def pteA : Uint64 := (1 : Uint64) <<< 6
def pteD : Uint64 := (1 : Uint64) <<< 7

def pa2pte (pa : Uint64) : Uint64 := (pa >>> 12) <<< 10

def pte2pa (pte : Uint64) : Uint64 := (pte >>> 10) <<< 12

theorem toInt_of_lt {w : Nat} {x : BitVec w} (h : x.toNat < 2 ^ 31) : toInt x = x.toNat := by
  rw [toInt, BitVec.toInt_eq_toNat_of_lt]
  · simp only [BitVec.toNat_setWidth]
    omega
  · simp only [BitVec.toNat_setWidth]
    omega

theorem ofInt_natCast (k : Nat) : ofInt k = BitVec.ofNat 32 k := by
  simp [ofInt]

theorem getLsbD_one_shiftLeft {w i : Nat} (hi : i < w) (k : Nat) :
    ((1 : BitVec w) <<< k).getLsbD i = decide (i = k) := by
  rw [BitVec.getLsbD_shiftLeft]
  rcases eq_or_ne i k with h | h
  · simp [h, h ▸ hi, Nat.zero_lt_of_lt hi]
  · simp [h]
    omega

/-- The test of a single bit. -/
theorem and_one_shiftLeft_ne_zero_iff {w k : Nat} (hk : k < w) (x : BitVec w) :
    x &&& (1 : BitVec w) <<< k ≠ 0 ↔ x.getLsbD k = true := by
  have hbit : ∀ i < w, (x &&& (1 : BitVec w) <<< k).getLsbD i = (x.getLsbD i && decide (i = k)) := by
    intro i hi
    rw [BitVec.getLsbD_and, getLsbD_one_shiftLeft hi]
  constructor
  · intro hne
    by_contra hclear
    refine hne (BitVec.eq_of_getLsbD_eq fun i hi => ?_)
    rw [hbit i hi]
    rcases eq_or_ne i k with hik | hik
    · simpa [hik] using hclear
    · simp [hik]
  · intro hset hzero
    have hclear := hbit k hk
    rw [hzero, hset] at hclear
    simp at hclear

end RiscvHypervisor.MachineTypes
