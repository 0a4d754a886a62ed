import Mathlib.Algebra.Group.Nat.Defs
import Mathlib.Data.Nat.Notation
import Mathlib.Tactic.Common
import GeekOS.Library.Result

/-!
# The layout of physical memory

The constants of `arch/mem.h`, the functions on page addresses of `mem.c`, and
`x86mem_init_layout` of `x86_mem.c`. A `ulong_t` is a number below `2 ^ 32`.

* `x86memInitLayout`: the sizes that the frame table and the regions of memory are computed from;
* `memIsPageAligned_iff`, `numframes_eq`: what the functions compute where nothing overflows.
-/

namespace GeekOS.Memory

/-- What halts the kernel. -/
inductive Fault
  /-- `start < end` in `mem_set_region_state`. -/
  | emptyRegion
  /-- `heap_created` in `mem_init`. -/
  | noHeap
  /-- `mem_is_page_aligned`. -/
  | pageAligned
  /-- `IS_PT_SPAN_ALIGNED`. -/
  | ptSpanAligned
  deriving DecidableEq, Repr

/-- Arithmetic of `ulong_t`. -/
def ulong (n : ℕ) : ℕ := n % 2 ^ 32

theorem ulong_of_lt {n : ℕ} (h : n < 2 ^ 32) : ulong n = n := Nat.mod_eq_of_lt h

/-- `PAGE_SIZE`. -/
def pageSize : ℕ := 4096

/-- `ISA_HOLE_START`. -/
def isaHoleStart : ℕ := 0xA0000

/-- `ISA_HOLE_END`. -/
def isaHoleEnd : ℕ := 0x100000

/-- `KERN_STACK`. -/
def kernStack : ℕ := 0x100000

/-- `sizeof(struct frame)`: seven fields of four bytes, with the two of its link. -/
def sizeofFrame : ℕ := 28

/-- `addr & PAGE_MASK`. -/
def pageMask (addr : ℕ) : ℕ := addr / pageSize * pageSize

/-- `mem_round_to_page`. -/
def memRoundToPage (addr : ℕ) : ℕ :=
  if pageMask addr ≠ addr then ulong (pageMask addr + pageSize) else addr

/-- `mem_is_page_aligned`. -/
def memIsPageAligned (addr : ℕ) : Bool := memRoundToPage addr = addr

/-- `struct x86mem_layout`. -/
structure X86memLayout where
  kernelEnd : ℕ
  memsizeKb : ℕ
  numframes : ℕ
  framelistNumframes : ℕ
  deriving DecidableEq, Repr

/-- `x86mem_init_layout`. The symbol `end` is at `endAddr`, and `memUpper` is `mem_upper` of the
boot record. -/
def x86memInitLayout (endAddr memUpper : ℕ) : X86memLayout :=
  let memsizeKb := ulong (1024 + memUpper)
  let numframes := memsizeKb / (pageSize / 1024)
  { kernelEnd := memRoundToPage endAddr
    memsizeKb
    numframes
    framelistNumframes := memRoundToPage (ulong (numframes * sizeofFrame)) / pageSize }

/-- An address is page-aligned if it is a multiple of the page size. -/
theorem memIsPageAligned_iff {addr : ℕ} :
    memIsPageAligned addr = true ↔ addr % pageSize = 0 := by
  unfold memIsPageAligned memRoundToPage pageMask ulong pageSize
  split
  · rw [decide_eq_true_iff]
    omega
  · rw [decide_eq_true_iff]
    omega

/-- A rounded address is page-aligned. -/
theorem memRoundToPage_mod {addr : ℕ} : memRoundToPage addr % pageSize = 0 := by
  unfold memRoundToPage pageMask ulong pageSize
  split <;> omega

theorem numframes_eq {endAddr memUpper : ℕ} (h : 1024 + memUpper < 2 ^ 32) :
    (x86memInitLayout endAddr memUpper).numframes = (1024 + memUpper) / 4 := by
  show ulong (1024 + memUpper) / (pageSize / 1024) = _
  rw [ulong_of_lt h]
  rfl

end GeekOS.Memory
