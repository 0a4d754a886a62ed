import GeekOS.Blockdev.Device
import GeekOS.Memory.Layout
import GeekOS.Vfs.Path

/-!
# Paging from a block device

`blockdev_pager.c`: a pager covers a range of the blocks of a device, and page `n` is the `n`-th
group of as many blocks as fit into a page. The number of a page and the addresses of its blocks are
values of 32 bits. `blockdev_pager_rw_page` lets `lba_add_offset` look for overflow in its sums, but
not in the product of the page number and the blocks of a page, and it computes the end of a page
before it clips it to the range.

* `TransfersPage`: the page is read from and written to its own blocks, and to no others;
* `blockdevPagerRwPage_iff`: the pages for which it is so, and how they divide the range.
-/

namespace GeekOS.Blockdev

open Result
open Vfs (einval)

/-- `struct blockdev_pager`. -/
structure BlockdevPager where
  dev : DeviceId
  start : Lba
  numBlocks : U32
  numBlocksPerPage : U32
  deriving DecidableEq, Repr

/-- `PAGE_SIZE`. -/
def pageSize : U32 := BitVec.ofNat 32 Memory.pageSize

/-- `blockdev_rw_op`: what a call with these arguments does is a value of `α`. -/
abbrev BlockdevRwOp (α : Type) := DeviceId → Lba → U32 → ℕ → α

/-- `blockdev_pager_create`: the code of a refusal, or the pager. -/
def blockdevPagerCreate {B : Type} (dev : Device B) (start : Lba) (numBlocks : U32) :
    Except BlockFault (Except ℤ BlockdevPager) := do
  let devNumBlocks ← blockdevGetNumBlocks dev
  let devBlockSize ← blockdevGetBlockSize dev
  require (rangeIsPowerOfTwo devBlockSize) .powerOfTwo
  require (rangeIsPowerOfTwo pageSize) .powerOfTwo
  -- a valid range of blocks
  if lbaIsRangeValid start numBlocks devNumBlocks = false then
    return .error einval
  -- the block size is at most the page size
  if pageSize < devBlockSize then
    return .error einval
  return .ok {
    dev := dev.id
    start
    numBlocks
    numBlocksPerPage := pageSize / devBlockSize }

/-- `blockdev_pager_rw_page`. -/
def blockdevPagerRwPage {α : Type} (pager : BlockdevPager) (buf : ℕ) (pageNum : U32)
    (rwFunc : BlockdevRwOp α) : Except BlockFault α := do
  let ioStartLba ← lbaAddOffset pager.start (pageNum * pager.numBlocksPerPage)
  let ioEndLba ← lbaAddOffset ioStartLba pager.numBlocksPerPage
  let rangeEndLba ← lbaAddOffset pager.start pager.numBlocks
  -- an incomplete page at the end of the range
  let ioEndLba := if lbaCompare rangeEndLba ioEndLba < 0 then rangeEndLba else ioEndLba
  let numBlocks ← lbaNumBlocksInRange ioStartLba ioEndLba
  return rwFunc pager.dev ioStartLba numBlocks buf

namespace BlockdevPager

variable (pager : BlockdevPager) (page page' : U32)

/-- The address and the number of blocks that the page is read from or written to. -/
def io : Except BlockFault (Lba × U32) :=
  blockdevPagerRwPage pager 0 page fun _ lba numBlocks _ => (lba, numBlocks)

/-- The block is one of them. -/
def Touches (block : ℕ) : Prop :=
  ∃ lba n, pager.io page = .ok (lba, n) ∧ lba.toNat ≤ block ∧ block < lba.toNat + n.toNat

/-- The first block of the page, as a number of its range. -/
def offset : ℕ := page.toNat * pager.numBlocksPerPage.toNat

/-- A page within the range is transferred to and from its blocks, as far as they are in the range,
and for any other page no block is touched. -/
structure TransfersPage : Prop where
  within : pager.offset page < pager.numBlocks.toNat → ∃ lba n : U32,
    lba.toNat = pager.start.toNat + pager.offset page ∧
    lba.toNat + n.toNat = min (pager.start.toNat + pager.offset page + pager.numBlocksPerPage.toNat)
      (pager.start.toNat + pager.numBlocks.toNat) ∧
    ∀ (α : Type) (rwFunc : BlockdevRwOp α) (buf : ℕ),
      blockdevPagerRwPage pager buf page rwFunc = .ok (rwFunc pager.dev lba n buf)
  beyond : pager.numBlocks.toNat ≤ pager.offset page → ∀ block, ¬pager.Touches page block

/-- Where the product of 32 bits is an offset in the range, it has not overflowed and the page ends
below block `2 ^ 32`, or both has happened. -/
def InReach : Prop :=
  pager.offset page % 2 ^ 32 < pager.numBlocks.toNat →
    (pager.offset page < 2 ^ 32 ↔
      pager.start.toNat + pager.offset page % 2 ^ 32 + pager.numBlocksPerPage.toNat < 2 ^ 32)

/-- What `blockdev_pager_create` has checked. -/
structure Valid : Prop where
  range : pager.start.toNat + pager.numBlocks.toNat < 2 ^ 32
  perPage : 0 < pager.numBlocksPerPage.toNat

variable {pager page page'} {B : Type} {dev : Device B} {start : Lba} {numBlocks : U32}

/-- What is done with the page is what is done with these blocks. -/
theorem rwPage_eq {α : Type} (buf : ℕ) (rwFunc : BlockdevRwOp α) :
    blockdevPagerRwPage pager buf page rwFunc =
      (pager.io page).map fun io => rwFunc pager.dev io.1 io.2 buf := by
  simp only [io, blockdevPagerRwPage, map_chain]
  rfl

theorem valid_of_create (h : blockdevPagerCreate dev start numBlocks = .ok (.ok pager)) :
    pager.Valid := by
  obtain ⟨devNumBlocks, -, h⟩ := bind_eq_ok.mp h
  obtain ⟨devBlockSize, -, h⟩ := bind_eq_ok.mp h
  obtain ⟨_, hpower, h⟩ := bind_eq_ok.mp h
  obtain ⟨_, -, h⟩ := bind_eq_ok.mp h
  obtain ⟨k, hk⟩ := rangeIsPowerOfTwo_iff.mp (require_eq_ok.mp hpower)
  split at h
  · cases h
  next hvalid =>
    rw [Bool.not_eq_false, lbaIsRangeValid, rangeIsValidU32_iff] at hvalid
    split at h
    · cases h
    next hsize =>
      obtain rfl := Except.ok.inj (Except.ok.inj h)
      refine ⟨Nat.lt_of_le_of_lt hvalid devNumBlocks.isLt, ?_⟩
      rw [BitVec.not_lt, BitVec.le_def] at hsize
      rw [BitVec.toNat_udiv]
      exact Nat.div_pos hsize (hk ▸ Nat.two_pow_pos k)

theorem toNat_offset : (page * pager.numBlocksPerPage).toNat = pager.offset page % 2 ^ 32 :=
  BitVec.toNat_mul ..

/-! ## One page -/

/-- The addresses that are computed from a page that ends within 32 bits. -/
theorem toNat_ends {offset : U32} (hv : pager.Valid)
    (hend : pager.start.toNat + offset.toNat + pager.numBlocksPerPage.toNat < 2 ^ 32) :
    (pager.start + offset).toNat = pager.start.toNat + offset.toNat ∧
      (pager.start + offset + pager.numBlocksPerPage).toNat =
        pager.start.toNat + offset.toNat + pager.numBlocksPerPage.toNat ∧
      (pager.start + pager.numBlocks).toNat = pager.start.toNat + pager.numBlocks.toNat := by
  have hstart : (pager.start + offset).toNat = pager.start.toNat + offset.toNat := by
    rw [BitVec.toNat_add, Nat.mod_eq_of_lt (by omega)]
  refine ⟨hstart, ?_, ?_⟩
  · rw [BitVec.toNat_add, hstart, Nat.mod_eq_of_lt hend]
  · rw [BitVec.toNat_add, Nat.mod_eq_of_lt hv.range]

/-- Its sums do not overflow. -/
theorem io_of_lt (hv : pager.Valid)
    (hend : pager.start.toNat + pager.offset page % 2 ^ 32 + pager.numBlocksPerPage.toNat < 2 ^ 32) :
    pager.io page =
      (lbaNumBlocksInRange (pager.start + page * pager.numBlocksPerPage)
        (if pager.numBlocks.toNat < pager.offset page % 2 ^ 32 + pager.numBlocksPerPage.toNat
          then pager.start + pager.numBlocks
          else pager.start + page * pager.numBlocksPerPage + pager.numBlocksPerPage)).map
        fun n => (pager.start + page * pager.numBlocksPerPage, n) := by
  rw [← toNat_offset] at hend ⊢
  unfold io blockdevPagerRwPage
  generalize page * pager.numBlocksPerPage = offset at *
  obtain ⟨hstart, hpage, hstop⟩ := toNat_ends hv hend
  rw [lbaAddOffset_of_lt (by omega), ok_bind, lbaAddOffset_of_lt (by omega), ok_bind,
    lbaAddOffset_of_lt hv.range, ok_bind]
  dsimp only
  -- whether the page is clipped does not depend on where the range begins
  have hclip : lbaCompare (pager.start + pager.numBlocks)
      (pager.start + offset + pager.numBlocksPerPage) < 0 ↔
        pager.numBlocks.toNat < offset.toNat + pager.numBlocksPerPage.toNat := by
    rw [lbaCompare_neg_iff]
    omega
  simp only [hclip]
  rfl

/-- The offset is in the range: the page is clipped to it. -/
theorem io_eq_ok (hv : pager.Valid) (hoffset : pager.offset page % 2 ^ 32 < pager.numBlocks.toNat)
    (hend : pager.start.toNat + pager.offset page % 2 ^ 32 + pager.numBlocksPerPage.toNat < 2 ^ 32) :
    ∃ lba n, pager.io page = .ok (lba, n) ∧
      lba.toNat = pager.start.toNat + pager.offset page % 2 ^ 32 ∧
      lba.toNat + n.toNat =
        min (pager.start.toNat + pager.offset page % 2 ^ 32 + pager.numBlocksPerPage.toNat)
          (pager.start.toNat + pager.numBlocks.toNat) := by
  rw [io_of_lt hv hend]
  rw [← toNat_offset] at hoffset hend ⊢
  obtain ⟨hstart, hpage, hstop⟩ := toNat_ends hv hend
  split
  next hclip =>
    rw [lbaNumBlocksInRange_of_le (by omega)]
    refine ⟨_, _, rfl, hstart, ?_⟩
    rw [BitVec.toNat_sub_of_le (by rw [BitVec.le_def]; omega)]
    omega
  next hfull =>
    rw [lbaNumBlocksInRange_of_le (by omega)]
    refine ⟨_, _, rfl, hstart, ?_⟩
    rw [BitVec.toNat_sub_of_le (by rw [BitVec.le_def]; omega)]
    omega

/-- An assertion fails where the page would end behind block `2 ^ 32 - 1`. -/
theorem io_of_le
    (hend : 2 ^ 32 ≤ pager.start.toNat + pager.offset page % 2 ^ 32 + pager.numBlocksPerPage.toNat) :
    pager.io page = .error .overflow := by
  rw [← toNat_offset] at hend
  unfold io blockdevPagerRwPage
  generalize page * pager.numBlocksPerPage = offset at *
  rcases Nat.lt_or_ge (pager.start.toNat + offset.toNat) (2 ^ 32) with hlt | hge
  · have hstart : (pager.start + offset).toNat = pager.start.toNat + offset.toNat := by
      rw [BitVec.toNat_add, Nat.mod_eq_of_lt hlt]
    rw [lbaAddOffset_of_lt hlt, ok_bind, lbaAddOffset_of_le (by omega), error_bind]
  · rw [lbaAddOffset_of_le hge, error_bind]

/-- An offset behind the range: an assertion fails, or no block is transferred. -/
theorem not_touches_of_le (hv : pager.Valid)
    (hoffset : pager.numBlocks.toNat ≤ pager.offset page % 2 ^ 32) (block : ℕ) :
    ¬pager.Touches page block := by
  rintro ⟨lba, n, hio, hle, hlt⟩
  have hpos := hv.perPage
  rcases Nat.lt_or_ge (pager.start.toNat + pager.offset page % 2 ^ 32 +
    pager.numBlocksPerPage.toNat) (2 ^ 32) with hend | hend
  · -- the end of the range is not behind the beginning of the page, which has a block at least
    rw [io_of_lt hv hend, if_pos (by omega)] at hio
    rw [← toNat_offset] at hoffset hend
    obtain ⟨hstart, -, hstop⟩ := toNat_ends hv hend
    rcases Nat.lt_or_ge pager.numBlocks.toNat
      (page * pager.numBlocksPerPage).toNat with hbehind | hat
    · rw [lbaNumBlocksInRange_of_lt (by omega)] at hio
      cases hio
    · rw [lbaNumBlocksInRange_of_le (by omega)] at hio
      obtain ⟨rfl, rfl⟩ := Prod.mk.inj (Except.ok.inj hio)
      rw [BitVec.toNat_sub_of_le (by rw [BitVec.le_def]; omega)] at hlt
      omega
  · rw [io_of_le hend] at hio
    cases hio

/-- A page is transferred as it should be if and only if it is in reach. -/
theorem transfersPage_iff (hv : pager.Valid) : pager.TransfersPage page ↔ pager.InReach page := by
  have hpos := hv.perPage
  have hrange := hv.range
  rcases Nat.lt_or_ge (pager.offset page % 2 ^ 32) pager.numBlocks.toNat with hoffset | hoffset
  · rcases Nat.lt_or_ge (pager.start.toNat + pager.offset page % 2 ^ 32 +
      pager.numBlocksPerPage.toNat) (2 ^ 32) with hend | hend
    · obtain ⟨lba, n, hio, hlba, hn⟩ := io_eq_ok hv hoffset hend
      rcases Nat.lt_or_ge (pager.offset page) (2 ^ 32) with hlt | hge
      · refine iff_of_true ⟨fun _ => ⟨lba, n, ?_, ?_, fun α rwFunc buf => ?_⟩, fun hle => ?_⟩
          fun _ => iff_of_true hlt hend
        · rw [hlba, Nat.mod_eq_of_lt hlt]
        · rw [hn, Nat.mod_eq_of_lt hlt]
        · rw [rwPage_eq, hio]
          rfl
        · rw [Nat.mod_eq_of_lt hlt] at hoffset
          omega
      · -- the product has overflowed, and the blocks are those of another page
        refine iff_of_false (fun h => ?_) fun h => ?_
        · exact h.beyond (by omega) lba.toNat ⟨lba, n, hio, Nat.le_refl _, by omega⟩
        · exact absurd ((h hoffset).mpr hend) (Nat.not_lt.mpr hge)
    · -- an assertion fails: right for a page behind the range, and for no other one
      have hio := io_of_le hend
      rcases Nat.lt_or_ge (pager.offset page) (2 ^ 32) with hlt | hge
      · refine iff_of_false (fun h => ?_) fun h => ?_
        · rw [Nat.mod_eq_of_lt hlt] at hoffset
          obtain ⟨lba, n, -, -, hrw⟩ := h.within hoffset
          exact absurd (hio.symm.trans (hrw _ _ 0)) (by simp)
        · exact absurd ((h hoffset).mp hlt) (Nat.not_lt.mpr hend)
      · refine iff_of_true ⟨fun h => by omega, fun _ block => ?_⟩
          fun _ => iff_of_false (Nat.not_lt.mpr hge) (Nat.not_lt.mpr hend)
        rintro ⟨lba, n, hio', -⟩
        exact absurd (hio.symm.trans hio') (by simp)
  · -- the product is behind the range, and the offset is not below it
    have hle : pager.numBlocks.toNat ≤ pager.offset page :=
      Nat.le_trans hoffset (Nat.mod_le ..)
    exact iff_of_true ⟨fun h => absurd h (Nat.not_lt.mpr hle),
      fun _ => not_touches_of_le hv hoffset⟩ fun h => absurd h (Nat.not_lt.mpr hoffset)

/-! ## All pages -/

/-- The blocks of a page that is transferred as it should be. -/
theorem TransfersPage.touches_iff (h : pager.TransfersPage page) (block : ℕ) :
    pager.Touches page block ↔
      pager.start.toNat + pager.offset page ≤ block ∧
        block < min (pager.start.toNat + pager.offset page + pager.numBlocksPerPage.toNat)
          (pager.start.toNat + pager.numBlocks.toNat) := by
  rcases Nat.lt_or_ge (pager.offset page) pager.numBlocks.toNat with hlt | hge
  · obtain ⟨lba, n, hlba, hn, hrw⟩ := h.within hlt
    have hio : pager.io page = .ok (lba, n) := hrw _ _ 0
    rw [← hn, ← hlba]
    constructor
    · rintro ⟨lba', n', hio', hle, hlt'⟩
      obtain ⟨rfl, rfl⟩ := Prod.mk.inj (Except.ok.inj (hio.symm.trans hio'))
      exact ⟨hle, hlt'⟩
    · rintro ⟨hle, hlt'⟩
      exact ⟨lba, n, hio, hle, hlt'⟩
  · refine iff_of_false (h.beyond hge block) ?_
    omega

/-- No block belongs to two pages. -/
theorem TransfersPage.disjoint (h : pager.TransfersPage page) (h' : pager.TransfersPage page')
    {block : ℕ} (hb : pager.Touches page block) (hb' : pager.Touches page' block) : page = page' := by
  rw [h.touches_iff] at hb
  rw [h'.touches_iff] at hb'
  -- a page ends where the next one begins, or before
  have horder : ∀ p q : U32, p.toNat < q.toNat →
      pager.offset p + pager.numBlocksPerPage.toNat ≤ pager.offset q := by
    intro p q hpq
    have hmul := Nat.mul_le_mul_right pager.numBlocksPerPage.toNat (Nat.succ_le_of_lt hpq)
    rwa [Nat.succ_mul] at hmul
  rcases Nat.lt_trichotomy page.toNat page'.toNat with hlt | heq | hgt
  · have := horder _ _ hlt
    omega
  · exact BitVec.eq_of_toNat_eq heq
  · have := horder _ _ hgt
    omega

/-- A block of the range has a page. -/
theorem exists_page (hv : pager.Valid) {block : ℕ} (hle : pager.start.toNat ≤ block)
    (hlt : block < pager.start.toNat + pager.numBlocks.toNat) :
    ∃ page : U32, pager.offset page ≤ block - pager.start.toNat ∧
      block - pager.start.toNat < pager.offset page + pager.numBlocksPerPage.toNat := by
  have hrange := hv.range
  have hdiv := Nat.div_add_mod (block - pager.start.toNat) pager.numBlocksPerPage.toNat
  have hmod := Nat.mod_lt (block - pager.start.toNat) hv.perPage
  -- the number of the page has 32 bits
  have hquot : (block - pager.start.toNat) / pager.numBlocksPerPage.toNat < 2 ^ 32 :=
    Nat.lt_of_le_of_lt (Nat.div_le_self ..) (by omega)
  refine ⟨BitVec.ofNat 32 ((block - pager.start.toNat) / pager.numBlocksPerPage.toNat), ?_⟩
  rw [offset, BitVec.toNat_ofNat, Nat.mod_eq_of_lt hquot, Nat.mul_comm]
  omega

end BlockdevPager

open BlockdevPager in
/-- A page of an accepted pager is transferred as it should be if and only if it is in reach. No
block belongs to two such pages, and together they are the range if all pages within it are in
reach. -/
theorem blockdevPagerRwPage_iff {B : Type} {dev : Device B} {start : Lba} {numBlocks : U32}
    {pager : BlockdevPager} (h : blockdevPagerCreate dev start numBlocks = .ok (.ok pager)) :
    (∀ page, pager.TransfersPage page ↔ pager.InReach page) ∧
      (∀ page page' block, pager.InReach page → pager.InReach page' →
        pager.Touches page block → pager.Touches page' block → page = page') ∧
      ((∀ page, pager.offset page < pager.numBlocks.toNat → pager.InReach page) →
        ∀ block, (∃ page, pager.InReach page ∧ pager.Touches page block) ↔
          pager.start.toNat ≤ block ∧ block < pager.start.toNat + pager.numBlocks.toNat) := by
  have hv := valid_of_create h
  refine ⟨fun page => transfersPage_iff hv, fun page page' block hp hp' hb hb' => ?_,
    fun hreach block => ⟨?_, ?_⟩⟩
  · exact ((transfersPage_iff hv).mpr hp).disjoint ((transfersPage_iff hv).mpr hp') hb hb'
  · rintro ⟨page, hp, hb⟩
    rw [((transfersPage_iff hv).mpr hp).touches_iff] at hb
    omega
  · rintro ⟨hle, hlt⟩
    obtain ⟨page, hpage, hnext⟩ := exists_page hv hle hlt
    have hp := hreach page (by omega)
    refine ⟨page, hp, ((transfersPage_iff hv).mpr hp |>.touches_iff block).mpr ?_⟩
    omega

/-- 16 blocks of 512 bytes, eight of which fill a page. -/
def smallDevice : Device Unit := ⟨0, none, some 16, some 512, none⟩

theorem blockdevPagerCreate_small :
    blockdevPagerCreate smallDevice 0 16 = .ok (.ok ⟨0, 0, 16, 8⟩) := by
  have hblock : rangeIsPowerOfTwo 512 = true := rangeIsPowerOfTwo_iff.mpr ⟨9, rfl⟩
  have hpage : rangeIsPowerOfTwo pageSize = true := rangeIsPowerOfTwo_iff.mpr ⟨12, rfl⟩
  simp only [blockdevPagerCreate, smallDevice, blockdevGetNumBlocks, blockdevGetBlockSize, call,
    ok_bind, hblock, hpage]
  rfl

open BlockdevPager in
theorem blockdevPagerRwPage_iff_small :
    (∀ page, TransfersPage ⟨0, 0, 16, 8⟩ page ↔ InReach ⟨0, 0, 16, 8⟩ page) ∧
      ¬InReach ⟨0, 0, 16, 8⟩ 0x20000000 :=
  ⟨(blockdevPagerRwPage_iff blockdevPagerCreate_small).1,
    fun h => absurd ((h (by decide)).mpr (by decide)) (by decide)⟩

/-- Page `2 ^ 29` is stored in the blocks of page 0. -/
theorem not_transfersPage_small :
    ¬∀ (dev : Device Unit) start numBlocks pager,
      blockdevPagerCreate dev start numBlocks = .ok (.ok pager) →
        ∀ page, pager.TransfersPage page := by
  intro h
  refine (h _ _ _ _ blockdevPagerCreate_small 0x20000000).beyond (by decide) 0 ?_
  exact ⟨0, 8, by decide, by decide, by decide⟩

end GeekOS.Blockdev
