import Mathlib.Algebra.Group.Nat.Defs
import Mathlib.Data.Int.Notation
import Mathlib.Data.Nat.Notation
import Mathlib.Tactic.Common
import GeekOS.Library.Result

/-!
# Addresses of blocks

`lba.c` and the functions of `range.c` that it needs, on values of 32 bits. What they compute is
compared with arithmetic that does not overflow.

* `rangeIsValidU32_iff`: the test of a range is right for all values;
* `lbaAddOffset_of_lt`, `lbaNumBlocksInRange_of_le`: when the assertions hold, and what is returned
  then;
* `lbaGetNumBlocksInTable_eq`: the size of a table is computed from a product that overflows;
* `rangeIsPowerOfTwo_iff`: the bits of a value are counted.
-/

namespace GeekOS.Blockdev

open Result

/-- `u32_t`, `unsigned` and `size_t`. -/
abbrev U32 := BitVec 32

/-- `lba_t`. -/
abbrev Lba := U32

/-- `blocksize_t`. -/
abbrev BlockSize := U32

/-- What halts the kernel, or a call that does not come back. -/
inductive BlockFault
  /-- `dest >= start.val` in `lba_add_offset`. -/
  | overflow
  /-- `start.val <= end.val` in `lba_num_blocks_in_range`. -/
  | order
  /-- `range_is_power_of_two` in `blockdev_pager_create`. -/
  | powerOfTwo
  /-- A division by a block size of zero. -/
  | divideByZero
  /-- A call of an operation that the device does not provide. -/
  | nullCall
  /-- An access behind a null pointer. -/
  | nullDeref
  /-- A request that is not completed. -/
  | noReturn
  /-- `state == BLOCKDEV_REQ_FINISHED` in `blockdev_issue_sync`. -/
  | finished
  deriving DecidableEq, Repr

/-- `range_umax`. -/
def rangeUmax (a b : U32) : U32 := if b < a then a else b

/-- `range_is_valid_u32`. -/
def rangeIsValidU32 (start num total : U32) : Bool :=
  if total < num then false else start ≤ total - num

/-- The loop of `range_bit_count`. -/
def countBits (bitCount val : ℕ) : ℕ :=
  if val = 0 then bitCount else countBits (bitCount + val % 2) (val / 2)

/-- `range_bit_count`. -/
def rangeBitCount (val : U32) : ℕ := countBits 0 val.toNat

/-- `range_is_power_of_two`. -/
def rangeIsPowerOfTwo (val : U32) : Bool := rangeBitCount val = 1

/-- `lba_add_offset`. -/
def lbaAddOffset (start : Lba) (offset : U32) : Except BlockFault Lba := do
  let dest := start + offset
  require (start ≤ dest) .overflow
  pure dest

/-- `lba_is_range_valid`. -/
def lbaIsRangeValid (start : Lba) (numBlocks totalBlocks : U32) : Bool :=
  rangeIsValidU32 start numBlocks totalBlocks

/-- `lba_block_offset_in_bytes`. -/
def lbaBlockOffsetInBytes (lba : Lba) (blockSize : BlockSize) : U32 := lba * blockSize

/-- `lba_range_size_in_bytes`. -/
def lbaRangeSizeInBytes (numBlocks : U32) (blockSize : BlockSize) : U32 := numBlocks * blockSize

/-- `lba_get_num_blocks_in_table`. -/
def lbaGetNumBlocksInTable (blockSize : BlockSize) (numEntries entrySize : U32) :
    Except BlockFault U32 := do
  let tableSizeInBytes := numEntries * entrySize
  require (blockSize ≠ 0) .divideByZero
  let tableSizeInBlocks := tableSizeInBytes / blockSize
  pure (if tableSizeInBytes % blockSize ≠ 0 then tableSizeInBlocks + 1 else tableSizeInBlocks)

/-- `lba_compare`. -/
def lbaCompare (lhs rhs : Lba) : ℤ := if lhs < rhs then -1 else if rhs < lhs then 1 else 0

/-- `lba_num_blocks_in_range`. -/
def lbaNumBlocksInRange (start stop : Lba) : Except BlockFault U32 := do
  require (start ≤ stop) .order
  pure (stop - start)

/-! ## What the functions compute -/

variable {start stop num total : U32}

/-- The test says whether the range ends within the total, without overflow. -/
theorem rangeIsValidU32_iff :
    rangeIsValidU32 start num total = true ↔ start.toNat + num.toNat ≤ total.toNat := by
  unfold rangeIsValidU32
  split
  next h =>
    rw [BitVec.lt_def] at h
    simp only [Bool.false_eq_true, false_iff]
    omega
  next h =>
    rw [decide_eq_true_iff]
    bv_omega

theorem rangeIsValidU32_eq_false :
    rangeIsValidU32 start num total = false ↔ total.toNat < start.toNat + num.toNat := by
  rw [← Bool.not_eq_true, rangeIsValidU32_iff, Nat.not_le]

theorem lbaAddOffset_of_lt (h : start.toNat + num.toNat < 2 ^ 32) :
    lbaAddOffset start num = .ok (start + num) := by
  rw [lbaAddOffset, require, if_pos (by bv_omega)]
  rfl

theorem lbaAddOffset_of_le (h : 2 ^ 32 ≤ start.toNat + num.toNat) :
    lbaAddOffset start num = .error .overflow := by
  rw [lbaAddOffset, require, if_neg (by bv_omega)]
  rfl

theorem lbaCompare_neg_iff : lbaCompare start stop < 0 ↔ start.toNat < stop.toNat := by
  unfold lbaCompare
  simp only [BitVec.lt_def]
  split_ifs <;> omega

theorem lbaNumBlocksInRange_of_le (h : start.toNat ≤ stop.toNat) :
    lbaNumBlocksInRange start stop = .ok (stop - start) := by
  rw [lbaNumBlocksInRange, require, if_pos (by bv_omega)]
  rfl

theorem lbaNumBlocksInRange_of_lt (h : stop.toNat < start.toNat) :
    lbaNumBlocksInRange start stop = .error .order := by
  rw [lbaNumBlocksInRange, require, if_neg (by bv_omega)]
  rfl

/-- Where the range of blocks ends within `total` bytes, neither its offset nor its size
overflows. -/
theorem toNat_bytes {blockSize : BlockSize} {lba : Lba}
    (h : (lba.toNat + num.toNat) * blockSize.toNat < 2 ^ 32) :
    (lbaBlockOffsetInBytes lba blockSize).toNat = lba.toNat * blockSize.toNat ∧
      (lbaRangeSizeInBytes num blockSize).toNat = num.toNat * blockSize.toNat := by
  rw [Nat.add_mul] at h
  rw [lbaBlockOffsetInBytes, lbaRangeSizeInBytes, BitVec.toNat_mul, BitVec.toNat_mul,
    Nat.mod_eq_of_lt (Nat.lt_of_le_of_lt (Nat.le_add_right ..) h),
    Nat.mod_eq_of_lt (Nat.lt_of_le_of_lt (Nat.le_add_left ..) h)]
  exact ⟨rfl, rfl⟩

/-- The table has as many blocks as the product of 32 bits needs. -/
theorem lbaGetNumBlocksInTable_eq {blockSize : BlockSize} (numEntries entrySize : U32)
    (h : 0 < blockSize.toNat) :
    ∃ n, lbaGetNumBlocksInTable blockSize numEntries entrySize = .ok n ∧
      ∀ m, n.toNat ≤ m ↔ numEntries.toNat * entrySize.toNat % 2 ^ 32 ≤ m * blockSize.toNat := by
  have hne : blockSize ≠ 0 := by
    rintro rfl
    exact absurd h (Nat.lt_irrefl 0)
  refine ⟨_, by rw [lbaGetNumBlocksInTable, require, if_pos hne, ok_bind]; rfl, fun m => ?_⟩
  have hbytes : (numEntries * entrySize).toNat = numEntries.toNat * entrySize.toNat % 2 ^ 32 :=
    BitVec.toNat_mul ..
  rw [← hbytes]
  -- only the bytes of the table matter from here on
  generalize numEntries * entrySize = bytes
  have hdiv := Nat.div_add_mod bytes.toNat blockSize.toNat
  have hmod := Nat.mod_lt bytes.toNat h
  have hle : bytes.toNat / blockSize.toNat ≤ m ↔
      bytes.toNat / blockSize.toNat * blockSize.toNat ≤ m * blockSize.toNat :=
    (Nat.mul_le_mul_right_iff h).symm
  have hzero : bytes % blockSize = 0 ↔ bytes.toNat % blockSize.toNat = 0 := by
    rw [← BitVec.toNat_inj, BitVec.toNat_umod]
    rfl
  rw [Nat.mul_comm] at hdiv
  split
  next hne =>
    -- a block that is not filled is one more, and the quotient is far from the largest value
    have hrest : bytes.toNat % blockSize.toNat ≠ 0 := fun h0 => hne (hzero.mpr h0)
    have htwo : 2 ≤ blockSize.toNat := by omega
    have hhalf : bytes.toNat / blockSize.toNat * 2 ≤
        bytes.toNat / blockSize.toNat * blockSize.toNat := Nat.mul_le_mul_left _ htwo
    have hsucc : (bytes / blockSize + 1).toNat = bytes.toNat / blockSize.toNat + 1 := by
      rw [BitVec.toNat_add, BitVec.toNat_udiv]
      exact Nat.mod_eq_of_lt (by have := bytes.isLt; simp; omega)
    rw [hsucc, Nat.succ_le_iff]
    constructor
    · intro hlt
      have hmul := Nat.mul_le_mul_right blockSize.toNat (Nat.succ_le_of_lt hlt)
      rw [Nat.succ_mul] at hmul
      omega
    · intro hbound
      by_contra hge
      have hmul := Nat.mul_le_mul_right blockSize.toNat (Nat.le_of_not_lt hge)
      omega
  next heq =>
    have hrest : bytes.toNat % blockSize.toNat = 0 := hzero.mp (not_not.mp heq)
    rw [BitVec.toNat_udiv, hle]
    omega

/-! ## Powers of two -/

theorem countBits_eq (bitCount val : ℕ) : countBits bitCount val = bitCount + countBits 0 val := by
  induction val using Nat.strongRecOn generalizing bitCount with
  | ind val ih =>
    -- one round for each of the two counts
    rw [countBits, countBits.eq_1 0]
    split
    · rfl
    next h =>
      have hlt : val / 2 < val := by omega
      rw [ih _ hlt (bitCount + val % 2), ih _ hlt (0 + val % 2)]
      omega

theorem countBits_eq_zero {val : ℕ} : countBits 0 val = 0 ↔ val = 0 := by
  induction val using Nat.strongRecOn with
  | ind val ih =>
    rw [countBits]
    split
    next h => simp [h]
    next h =>
      rw [countBits_eq, Nat.add_eq_zero_iff, ih (val / 2) (by omega)]
      omega

/-- One bit is set. -/
theorem countBits_eq_one {val : ℕ} : countBits 0 val = 1 ↔ ∃ k, val = 2 ^ k := by
  induction val using Nat.strongRecOn with
  | ind val ih =>
    rw [countBits]
    split
    next h =>
      subst h
      simp only [Nat.zero_ne_one, false_iff, not_exists]
      exact fun k => Nat.ne_of_lt (Nat.two_pow_pos k)
    next h =>
      rw [countBits_eq, Nat.zero_add]
      rcases Nat.mod_two_eq_zero_or_one val with heven | hodd
      · -- the bit is among those that are left
        rw [heven, Nat.zero_add, ih (val / 2) (by omega)]
        constructor
        · rintro ⟨k, hk⟩
          exact ⟨k + 1, by rw [Nat.pow_succ]; omega⟩
        · rintro ⟨k, rfl⟩
          cases k with
          | zero => simp at heven
          | succ k => exact ⟨k, by rw [Nat.pow_succ]; omega⟩
      · -- the last bit is the one
        rw [hodd, Nat.add_eq_left, countBits_eq_zero]
        constructor
        · intro hzero
          exact ⟨0, by rw [Nat.pow_zero]; omega⟩
        · rintro ⟨k, rfl⟩
          cases k with
          | zero => rfl
          | succ k => rw [Nat.pow_succ] at hodd; omega

theorem rangeIsPowerOfTwo_iff {val : U32} :
    rangeIsPowerOfTwo val = true ↔ ∃ k, val.toNat = 2 ^ k := by
  rw [rangeIsPowerOfTwo, decide_eq_true_iff, rangeBitCount, countBits_eq_one]

end GeekOS.Blockdev
