import GeekOS.Blockdev.Device
import GeekOS.Vfs.Path

/-!
# The superblock of a PFAT filesystem

`pfat_check_super` and `pfat_get_fat_num_blocks` of `pfat.c`. The check is the only test of what is
read from the disk: the blocks of the FAT have to end in front of the first cluster and on the
device. Their number is computed from a product of 32 bits.

* `pfatCheckSuper_eq`: the superblocks that are accepted;
* `FatInside`: the entries of the FAT lie where the check wants them;
* `fatInside_of_accepted_iff`: when acceptance implies it.
-/

namespace GeekOS.Pfat

open Result Blockdev
open Vfs (einval)

/-- `struct pfat_superblock`, its reserved bytes aside. -/
structure PfatSuperblock where
  magic : U32
  fatLba : U32
  fatNumEntries : U32
  firstClusterLba : U32
  clusterSize : U32
  rootDirFatIndex : U32
  deriving DecidableEq, Repr

/-- `PFAT_MAGIC`. -/
def pfatMagic : U32 := 0x77E2EF5A

/-- `PFAT_FORMAT_ERROR`. -/
def pfatFormatError : ℤ := einval

theorem pfatFormatError_ne_zero : pfatFormatError ≠ 0 := by decide

/-- `sizeof(struct pfat_entry)`. -/
def sizeofPfatEntry : U32 := 4

variable {B : Type} (dev : Device B) (super : PfatSuperblock)

/-- `pfat_get_fat_num_blocks`. -/
def pfatGetFatNumBlocks : Except BlockFault U32 := do
  let blockSize ← blockdevGetBlockSize dev
  lbaGetNumBlocksInTable blockSize super.fatNumEntries sizeofPfatEntry

/-- `pfat_check_super`. -/
def pfatCheckSuper : Except BlockFault ℤ := do
  let fatNumBlocks ← pfatGetFatNumBlocks dev super
  let devNumBlocks ← blockdevGetNumBlocks dev
  -- make sure FAT fits on device
  if rangeIsValidU32 super.fatLba fatNumBlocks devNumBlocks = false then
    return pfatFormatError
  -- first cluster LBA must be past FAT
  if super.firstClusterLba < super.fatLba + fatNumBlocks then
    return pfatFormatError
  return 0

namespace PfatSuperblock

/-- The block of a byte of the FAT. -/
def fatBlock (blockSize byte : ℕ) : ℕ := super.fatLba.toNat + byte / blockSize

/-- Every byte of every entry is in a block from `fat_lba` on, before `first_cluster_lba` and on the
device. -/
def FatInside (blockSize numBlocks : ℕ) : Prop :=
  ∀ i < super.fatNumEntries.toNat, ∀ byte, i * 4 ≤ byte → byte < i * 4 + 4 →
    super.fatLba.toNat ≤ super.fatBlock blockSize byte ∧
      super.fatBlock blockSize byte < super.firstClusterLba.toNat ∧
      super.fatBlock blockSize byte < numBlocks

/-- The first block behind those that the FAT may use. -/
def fatLimit (numBlocks : ℕ) : ℕ := min super.firstClusterLba.toNat numBlocks

/-- The bytes from `fat_lba` up to the limit. -/
def fatRoom (blockSize numBlocks : ℕ) : ℕ :=
  (super.fatLimit numBlocks - super.fatLba.toNat) * blockSize

/-- The room is not between the size of the FAT and what is left of it in 32 bits. -/
def RoomClear (blockSize numBlocks : ℕ) : Prop :=
  super.fatLba.toNat ≤ super.fatLimit numBlocks →
    super.fatRoom blockSize numBlocks < super.fatNumEntries.toNat * 4 % 2 ^ 32 ∨
      super.fatNumEntries.toNat * 4 ≤ super.fatRoom blockSize numBlocks

variable {super} {blockSize numBlocks : ℕ}

/-- The FAT is inside if it fits into its room. -/
theorem fatInside_iff (hpos : 0 < blockSize) (hle : super.fatLba.toNat ≤ super.fatLimit numBlocks) :
    super.FatInside blockSize numBlocks ↔
      super.fatNumEntries.toNat * 4 ≤ super.fatRoom blockSize numBlocks := by
  unfold FatInside fatBlock fatRoom
  unfold fatLimit at *
  constructor
  · intro h
    rcases Nat.eq_zero_or_pos super.fatNumEntries.toNat with hzero | hn
    · rw [hzero]
      omega
    · -- the last byte of the last entry
      obtain ⟨-, hcluster, hdev⟩ := h (super.fatNumEntries.toNat - 1) (by omega)
        (super.fatNumEntries.toNat * 4 - 1) (by omega) (by omega)
      have hlast : (super.fatNumEntries.toNat * 4 - 1) / blockSize <
          min super.firstClusterLba.toNat numBlocks - super.fatLba.toNat := by
        omega
      have := (Nat.div_lt_iff_lt_mul hpos).mp hlast
      omega
  · intro hfits i hi byte hfrom hto
    have hbyte : byte / blockSize <
        min super.firstClusterLba.toNat numBlocks - super.fatLba.toNat :=
      (Nat.div_lt_iff_lt_mul hpos).mpr (by omega)
    refine ⟨Nat.le_add_right .., ?_, ?_⟩ <;> omega

end PfatSuperblock

variable {dev super} {blockSize : BlockSize} {numBlocks : U32}

/-- A superblock is accepted if as much of the FAT as its size of 32 bits fits into the room. -/
theorem pfatCheckSuper_eq (hblock : dev.getBlockSize = some blockSize) (hpos : 0 < blockSize.toNat)
    (hnum : dev.getNumBlocks = some numBlocks) :
    ∃ rc, pfatCheckSuper dev super = .ok rc ∧ (rc = 0 ↔
      super.fatLba.toNat ≤ super.fatLimit numBlocks.toNat ∧
        super.fatNumEntries.toNat * 4 % 2 ^ 32 ≤
          super.fatRoom blockSize.toNat numBlocks.toNat) := by
  obtain ⟨n, hn, hfits⟩ := lbaGetNumBlocksInTable_eq super.fatNumEntries sizeofPfatEntry hpos
  -- the number of blocks that the check goes by
  have hfat : pfatGetFatNumBlocks dev super = .ok n := by
    rw [pfatGetFatNumBlocks, blockdevGetBlockSize, call_eq_ok.mpr hblock, ok_bind, hn]
  have hdev : blockdevGetNumBlocks dev = .ok numBlocks := call_eq_ok.mpr hnum
  have hroom := hfits (super.fatLimit numBlocks.toNat - super.fatLba.toNat)
  rw [show sizeofPfatEntry.toNat = 4 from rfl] at hroom
  unfold PfatSuperblock.fatRoom
  rw [← hroom, pfatCheckSuper, hfat, ok_bind, hdev, ok_bind]
  unfold PfatSuperblock.fatLimit
  split
  next hrange =>
    -- the FAT does not end on the device
    rw [rangeIsValidU32_eq_false] at hrange
    refine ⟨_, rfl, iff_of_false pfatFormatError_ne_zero ?_⟩
    omega
  next hrange =>
    rw [Bool.not_eq_false, rangeIsValidU32_iff] at hrange
    -- the sum is at most the length of the device, so that it does not overflow
    have hsum : (super.fatLba + n).toNat = super.fatLba.toNat + n.toNat := by
      rw [BitVec.toNat_add, Nat.mod_eq_of_lt (Nat.lt_of_le_of_lt hrange numBlocks.isLt)]
    split
    next hcluster =>
      -- it runs into the first cluster
      rw [BitVec.lt_def, hsum] at hcluster
      refine ⟨_, rfl, iff_of_false pfatFormatError_ne_zero ?_⟩
      omega
    next hcluster =>
      rw [BitVec.lt_def, hsum] at hcluster
      refine ⟨_, rfl, iff_of_true rfl ?_⟩
      omega

/-- Acceptance implies that the FAT is inside if and only if its room is not between its size and
what is left of the size in 32 bits. -/
theorem fatInside_of_accepted_iff (hblock : dev.getBlockSize = some blockSize)
    (hpos : 0 < blockSize.toNat) (hnum : dev.getNumBlocks = some numBlocks) :
    (pfatCheckSuper dev super = .ok 0 → super.FatInside blockSize.toNat numBlocks.toNat) ↔
      super.RoomClear blockSize.toNat numBlocks.toNat := by
  obtain ⟨rc, hcheck, haccept⟩ := @pfatCheckSuper_eq _ dev super _ _ hblock hpos hnum
  have hzero : pfatCheckSuper dev super = .ok 0 ↔ rc = 0 := by
    rw [hcheck, Except.ok.injEq]
  rw [hzero, haccept, PfatSuperblock.RoomClear]
  constructor
  · intro h hle
    rcases Nat.lt_or_ge (super.fatRoom blockSize.toNat numBlocks.toNat)
      (super.fatNumEntries.toNat * 4 % 2 ^ 32) with hlt | hge
    · exact .inl hlt
    · exact .inr ((PfatSuperblock.fatInside_iff hpos hle).mp (h ⟨hle, hge⟩))
  · rintro h ⟨hle, hge⟩
    rcases h hle with hlt | hfits
    · exact absurd hge (Nat.not_le.mpr hlt)
    · exact (PfatSuperblock.fatInside_iff hpos hle).mpr hfits

/-- Two blocks of 512 bytes. -/
def twoBlocks : Device Unit := ⟨0, none, some 2, some 512, none⟩

/-- A FAT of one entry. -/
theorem fatInside_of_accepted_iff_one :
    (pfatCheckSuper twoBlocks ⟨pfatMagic, 1, 1, 2, 512, 0⟩ = .ok 0 →
      PfatSuperblock.FatInside ⟨pfatMagic, 1, 1, 2, 512, 0⟩ 512 2) ↔
        PfatSuperblock.RoomClear ⟨pfatMagic, 1, 1, 2, 512, 0⟩ 512 2 :=
  @fatInside_of_accepted_iff _ twoBlocks _ 512 2 rfl (by decide) rfl

/-- A FAT of `2 ^ 30` entries, which need 4 GB, is accepted as one of no blocks, and its first entry
is in the first cluster. -/
theorem not_fatInside_huge :
    ¬∀ (dev : Device Unit) (blockSize : BlockSize) (numBlocks : U32) (super : PfatSuperblock),
      dev.getBlockSize = some blockSize → 0 < blockSize.toNat → dev.getNumBlocks = some numBlocks →
        pfatCheckSuper dev super = .ok 0 → super.FatInside blockSize.toNat numBlocks.toNat := by
  intro h
  have hinside := h twoBlocks 512 2 ⟨pfatMagic, 1, 0x40000000, 1, 512, 0⟩ rfl (by decide) rfl
    (by decide)
  exact absurd (hinside 0 (by decide) 0 (by decide) (by decide)).2.1 (by decide)

end GeekOS.Pfat
