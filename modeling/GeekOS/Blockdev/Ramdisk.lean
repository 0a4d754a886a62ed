import GeekOS.Blockdev.Lba
import GeekOS.Blockdev.Request
import GeekOS.Console.Screen
import GeekOS.Library.Run
import GeekOS.Vfs.Path

/-!
# The ramdisk

`ramdisk.c`: a device whose blocks are in a buffer in memory. A request is handled by the thread of
the workqueue, which copies bytes between the buffer of the request and that of the disk. Between two
requests anything may be stored to memory outside of the buffer of the disk.

* `ramdiskHandleRequest_write`, `ramdiskHandleRequest_read`: the code of a request that is accepted,
  and every byte of memory after it;
* `LatestData`: what a block should hold after a run, from the writes in its trace;
* `latestData_of_run`: every block holds it;
* `handlesRight_of_run`: the store law.
-/

namespace GeekOS.Blockdev

open Console TransitionSystem
open Vfs (einval)

/-- `RAMDISK_BLOCK_SIZE`. -/
def ramdiskBlockSize : BlockSize := 512

/-- `struct ramdisk_data`. -/
structure RamdiskData where
  buf : ℕ
  size : U32

/-- What `ramdisk_handle_request` reads of a `struct blockdev_req`. -/
structure RamdiskReq where
  lba : Lba
  numBlocks : U32
  buf : ℕ
  type : ReqType
  deriving DecidableEq, Repr

/-- `RAMDISK_NUM_BLOCKS`. -/
def ramdiskNumBlocks (rd : RamdiskData) : U32 := rd.size / ramdiskBlockSize

/-- `ramdisk_buf` of `ramdisk_handle_request`. -/
def ramdiskBuf (rd : RamdiskData) (req : RamdiskReq) : ℕ :=
  rd.buf + (lbaBlockOffsetInBytes req.lba ramdiskBlockSize).toNat

/-- `copy_size` of `ramdisk_handle_request`. -/
def copySize (req : RamdiskReq) : ℕ :=
  (lbaRangeSizeInBytes req.numBlocks ramdiskBlockSize).toNat

/-- `ramdisk_handle_request`: the code for `blockdev_notify_complete`, and memory. -/
def ramdiskHandleRequest (rd : RamdiskData) (req : RamdiskReq) (mem : Mem) : ℤ × Mem :=
  -- make sure requested range of blocks is valid
  if lbaIsRangeValid req.lba req.numBlocks (ramdiskNumBlocks rd) = false then
    (einval, mem)
  else
    match req.type with
    | .read => (0, memcpy req.buf (ramdiskBuf rd req) (copySize req) mem)
    | .write => (0, memcpy (ramdiskBuf rd req) req.buf (copySize req) mem)

/-! ## The requests -/

/-- The whole blocks of the disk. -/
def RamdiskData.wholeBlocks (rd : RamdiskData) : ℕ := rd.size.toNat / 512

/-- The address of a byte of a block. -/
def RamdiskData.byte (rd : RamdiskData) (block i : ℕ) : ℕ := rd.buf + 512 * block + i

namespace RamdiskReq

variable (req : RamdiskReq) (rd : RamdiskData)

/-- All blocks of the request are on the disk. -/
def Fits : Prop := req.lba.toNat + req.numBlocks.toNat ≤ rd.wholeBlocks

/-- The block is one of the request. -/
def Names (block : ℕ) : Prop :=
  req.lba.toNat ≤ block ∧ block < req.lba.toNat + req.numBlocks.toNat

/-- The request is a write to the block that is accepted. -/
def Writes (block : ℕ) : Prop := req.type = .write ∧ req.Fits rd ∧ req.Names block

/-- The buffer of the request is apart from that of the disk. -/
def Apart : Prop :=
  req.buf + 512 * req.numBlocks.toNat ≤ rd.buf ∨ rd.buf + rd.size.toNat ≤ req.buf

/-- The address of a byte of a block in the buffer of the request. -/
def byte (block i : ℕ) : ℕ := req.buf + 512 * (block - req.lba.toNat) + i

end RamdiskReq

variable {rd : RamdiskData} {req : RamdiskReq} {mem mem₀ : Mem}

theorem lbaIsRangeValid_iff_fits :
    lbaIsRangeValid req.lba req.numBlocks (ramdiskNumBlocks rd) = true ↔ req.Fits rd := by
  rw [lbaIsRangeValid, rangeIsValidU32_iff, ramdiskNumBlocks, BitVec.toNat_udiv]
  rfl

/-- The extent of a request that is accepted is inside the buffer of the disk, and neither its
offset nor its size overflows. -/
theorem extent_of_fits (h : req.Fits rd) :
    ramdiskBuf rd req = rd.buf + 512 * req.lba.toNat ∧ copySize req = 512 * req.numBlocks.toNat ∧
      ramdiskBuf rd req + copySize req ≤ rd.buf + rd.size.toNat := by
  have hsize := rd.size.isLt
  unfold RamdiskReq.Fits RamdiskData.wholeBlocks at h
  have hbytes : (req.lba.toNat + req.numBlocks.toNat) * ramdiskBlockSize.toNat < 2 ^ 32 := by
    rw [show ramdiskBlockSize.toNat = 512 from rfl]
    omega
  obtain ⟨hoffset, hcopy⟩ := toNat_bytes hbytes
  rw [ramdiskBuf, copySize, hoffset, hcopy, show ramdiskBlockSize.toNat = 512 from rfl]
  omega

/-- A request that does not fit. -/
theorem ramdiskHandleRequest_of_not_fits (h : ¬req.Fits rd) :
    ramdiskHandleRequest rd req mem = (einval, mem) := by
  rw [ramdiskHandleRequest, if_pos]
  rwa [← Bool.not_eq_true, lbaIsRangeValid_iff_fits]

/-- A write that fits stores the blocks that it names. -/
theorem ramdiskHandleRequest_write (h : req.Fits rd) (hapart : req.Apart rd)
    (htype : req.type = .write) :
    (ramdiskHandleRequest rd req mem).1 = 0 ∧ ∀ a, (ramdiskHandleRequest rd req mem).2 a =
      if rd.buf + 512 * req.lba.toNat ≤ a ∧
          a < rd.buf + 512 * (req.lba.toNat + req.numBlocks.toNat)
        then mem (req.buf + (a - (rd.buf + 512 * req.lba.toNat))) else mem a := by
  obtain ⟨hbuf, hcopy, hinside⟩ := extent_of_fits h
  rw [hbuf, hcopy] at hinside
  have hvalid := lbaIsRangeValid_iff_fits.mpr h
  rw [ramdiskHandleRequest, if_neg (by simp [hvalid]), htype]
  refine ⟨rfl, fun a => ?_⟩
  unfold RamdiskReq.Apart at hapart
  dsimp only
  rw [memcpy_apply (by omega), hbuf, hcopy]
  exact if_congr (by omega) rfl rfl

/-- A read that fits stores them in its buffer. -/
theorem ramdiskHandleRequest_read (h : req.Fits rd) (hapart : req.Apart rd)
    (htype : req.type = .read) :
    (ramdiskHandleRequest rd req mem).1 = 0 ∧ ∀ a, (ramdiskHandleRequest rd req mem).2 a =
      if req.buf ≤ a ∧ a < req.buf + 512 * req.numBlocks.toNat
        then mem (rd.buf + 512 * req.lba.toNat + (a - req.buf)) else mem a := by
  obtain ⟨hbuf, hcopy, hinside⟩ := extent_of_fits h
  rw [hbuf, hcopy] at hinside
  have hvalid := lbaIsRangeValid_iff_fits.mpr h
  rw [ramdiskHandleRequest, if_neg (by simp [hvalid]), htype]
  refine ⟨rfl, fun a => ?_⟩
  unfold RamdiskReq.Apart at hapart
  dsimp only
  rw [memcpy_apply (by omega), hbuf, hcopy]

/-! ## Runs -/

/-- What happens to memory. -/
inductive RamdiskEvent
  | handleRequest (req : RamdiskReq)
  /-- Something else stores to memory. -/
  | other
  deriving DecidableEq, Repr

/-- One step: the disk handles a request, whose buffer is apart from its own if the request is
accepted, or something else leaves its buffer as it is. -/
inductive RamdiskStep (rd : RamdiskData) : Mem → RamdiskEvent → Mem → Prop
  | handleRequest {mem : Mem} {req : RamdiskReq} (hapart : req.Fits rd → req.Apart rd) :
      RamdiskStep rd mem (.handleRequest req) (ramdiskHandleRequest rd req mem).2
  | other {mem mem' : Mem}
      (h : ∀ a, rd.buf ≤ a → a < rd.buf + rd.size.toNat → mem' a = mem a) :
      RamdiskStep rd mem .other mem'

/-- No event of the trace writes the block. -/
def Unwritten (rd : RamdiskData) (tr : List (Mem × RamdiskEvent)) (block : ℕ) : Prop :=
  ∀ p ∈ tr, ∀ req : RamdiskReq, p.2 = .handleRequest req → ¬req.Writes rd block

/-- The byte is what the latest write to the block in the trace has taken from its buffer, or what
has been there from the beginning. -/
def LatestData (rd : RamdiskData) (mem₀ : Mem) (tr : List (Mem × RamdiskEvent)) (block i : ℕ)
    (v : UInt8) : Prop :=
  (∃ tr₁ mem req tr₂, tr = tr₁ ++ (mem, .handleRequest req) :: tr₂ ∧ req.Writes rd block ∧
      Unwritten rd tr₂ block ∧ v = mem (req.byte block i)) ∨
    Unwritten rd tr block ∧ v = mem₀ (rd.byte block i)

variable {tr : List (Mem × RamdiskEvent)} {block i : ℕ} {v : UInt8}

/-- An event that does not write the block. -/
theorem LatestData.snoc {e : RamdiskEvent} (h : LatestData rd mem₀ tr block i v)
    (he : ∀ req : RamdiskReq, e = .handleRequest req → ¬req.Writes rd block) :
    LatestData rd mem₀ (tr ++ [(mem, e)]) block i v := by
  -- the writes before the event stay the latest ones
  have hsnoc : ∀ {tr'}, Unwritten rd tr' block → Unwritten rd (tr' ++ [(mem, e)]) block := by
    intro tr' htr p hp
    rcases List.mem_append.mp hp with hp | hp
    · exact htr p hp
    · rw [List.mem_singleton.mp hp]
      exact he
  rcases h with ⟨tr₁, m, req, tr₂, rfl, hw, hlater, hv⟩ | ⟨hnone, hv⟩
  · exact .inl ⟨tr₁, m, req, tr₂ ++ [(mem, e)], by simp, hw, hsnoc hlater, hv⟩
  · exact .inr ⟨hsnoc hnone, hv⟩

/-- An event that writes it. -/
theorem LatestData.of_write (hw : req.Writes rd block) (hv : v = mem (req.byte block i)) :
    LatestData rd mem₀ (tr ++ [(mem, .handleRequest req)]) block i v := by
  refine .inl ⟨tr, mem, req, [], by simp, hw, ?_, hv⟩
  intro p hp
  cases hp

/-- A request stores to the blocks that it writes, and to no others. -/
theorem ramdiskHandleRequest_byte (hapart : req.Fits rd → req.Apart rd)
    (hblock : block < rd.wholeBlocks) (hi : i < 512) :
    (req.Writes rd block →
        (ramdiskHandleRequest rd req mem).2 (rd.byte block i) = mem (req.byte block i)) ∧
      (¬req.Writes rd block →
        (ramdiskHandleRequest rd req mem).2 (rd.byte block i) = mem (rd.byte block i)) := by
  have hsize : 512 * block + i < rd.size.toNat := by
    unfold RamdiskData.wholeBlocks at hblock
    omega
  unfold RamdiskReq.Writes RamdiskReq.Names RamdiskReq.byte RamdiskData.byte
  by_cases hfits : req.Fits rd
  · replace hapart := hapart hfits
    cases htype : req.type with
    | read =>
      refine ⟨fun hw => (by cases hw.1), fun _ => ?_⟩
      -- a read stores into the buffer, which is apart from the disk
      rw [(ramdiskHandleRequest_read hfits hapart htype).2, if_neg]
      unfold RamdiskReq.Apart at hapart
      omega
    | write =>
      rw [(ramdiskHandleRequest_write hfits hapart htype).2]
      refine ⟨fun hw => ?_, fun hw => ?_⟩
      · rw [if_pos (by omega)]
        congr 1
        omega
      · rw [if_neg]
        simp only [hfits, true_and] at hw
        omega
  · -- a request that does not fit is rejected before anything is stored
    rw [ramdiskHandleRequest_of_not_fits hfits]
    exact ⟨fun hw => absurd hw.2.1 hfits, fun _ => rfl⟩

/-- After every run, each byte of each block is what the latest write has left there. -/
theorem latestData_of_run (h : Run (RamdiskStep rd) mem₀ tr mem) (hblock : block < rd.wholeBlocks)
    (hi : i < 512) : LatestData rd mem₀ tr block i (mem (rd.byte block i)) := by
  induction h with
  | nil =>
    refine .inr ⟨fun p hp => ?_, rfl⟩
    cases hp
  | @snoc m m' tr e hr hs ih =>
    cases hs with
    | @handleRequest req hapart =>
      obtain ⟨hwrite, hkeep⟩ := @ramdiskHandleRequest_byte rd req m block i hapart hblock hi
      by_cases hw : req.Writes rd block
      · exact .of_write hw (hwrite hw)
      · rw [hkeep hw]
        refine ih.snoc ?_
        rintro _ ⟨⟩
        exact hw
    | other hother =>
      unfold RamdiskData.wholeBlocks at hblock
      -- the block is in the buffer of the disk
      rw [hother (rd.byte block i) (by unfold RamdiskData.byte; omega)
        (by unfold RamdiskData.byte; omega)]
      refine ih.snoc ?_
      rintro _ ⟨⟩

/-! ## The store law -/

/-- What should become of a request after a run with this trace, which has left `mem`. -/
structure HandlesRight (rd : RamdiskData) (mem₀ : Mem) (tr : List (Mem × RamdiskEvent)) (mem : Mem)
    (req : RamdiskReq) : Prop where
  refused : (ramdiskHandleRequest rd req mem).1 = einval ↔
    rd.wholeBlocks < req.lba.toNat + req.numBlocks.toNat
  unchanged : rd.wholeBlocks < req.lba.toNat + req.numBlocks.toNat →
    (ramdiskHandleRequest rd req mem).2 = mem
  /-- The code of success. -/
  accepted : req.Fits rd → (ramdiskHandleRequest rd req mem).1 = 0
  /-- The bytes that are copied from or to the disk. -/
  inside : req.Fits rd → ∀ a, ramdiskBuf rd req ≤ a → a < ramdiskBuf rd req + copySize req →
    rd.buf ≤ a ∧ a < rd.buf + rd.size.toNat
  /-- A write replaces the named blocks. -/
  write : req.Fits rd → req.type = .write →
    (∀ block, req.Names block → ∀ i < 512,
      (ramdiskHandleRequest rd req mem).2 (rd.byte block i) = mem (req.byte block i)) ∧
    ∀ a, (∀ block, req.Names block → ∀ i < 512, a ≠ rd.byte block i) →
      (ramdiskHandleRequest rd req mem).2 a = mem a
  /-- A read returns the latest data. -/
  read : req.Fits rd → req.type = .read →
    (∀ block, req.Names block → ∀ i < 512, LatestData rd mem₀ tr block i
      ((ramdiskHandleRequest rd req mem).2 (req.byte block i))) ∧
    ∀ a, (∀ block, req.Names block → ∀ i < 512, a ≠ req.byte block i) →
      (ramdiskHandleRequest rd req mem).2 a = mem a

/-- After every sequence of requests and of other stores, a request does what it should. -/
theorem handlesRight_of_run (h : Run (RamdiskStep rd) mem₀ tr mem)
    (hapart : req.Fits rd → req.Apart rd) :
    HandlesRight rd mem₀ tr mem req := by
  have hfits : ¬req.Fits rd ↔ rd.wholeBlocks < req.lba.toNat + req.numBlocks.toNat := Nat.not_le
  have hzero : req.Fits rd → (ramdiskHandleRequest rd req mem).1 = 0 := by
    intro hf
    cases htype : req.type with
    | read => exact (ramdiskHandleRequest_read hf (hapart hf) htype).1
    | write => exact (ramdiskHandleRequest_write hf (hapart hf) htype).1
  have hwhole : ∀ block, req.Fits rd → req.Names block → block < rd.wholeBlocks :=
    fun block hf hb => Nat.lt_of_lt_of_le hb.2 hf
  refine ⟨?_, fun hlt => ?_, hzero, fun hf a hle hlt => ?_, fun hf htype => ⟨?_, ?_⟩,
    fun hf htype => ⟨?_, ?_⟩⟩
  · rw [← hfits]
    constructor
    · intro hrc hf
      rw [hzero hf] at hrc
      cases hrc
    · intro hf
      rw [ramdiskHandleRequest_of_not_fits hf]
  · rw [ramdiskHandleRequest_of_not_fits (hfits.mpr hlt)]
  · obtain ⟨hbuf, -, hinside⟩ := extent_of_fits hf
    omega
  · intro block hb i hi
    exact (ramdiskHandleRequest_byte hapart (hwhole block hf hb) hi).1 ⟨htype, hf, hb⟩
  · -- a byte that is stored to belongs to a block that is named
    intro a ha
    rw [(ramdiskHandleRequest_write hf (hapart hf) htype).2, if_neg]
    rintro ⟨hle, hlt⟩
    refine ha ((a - rd.buf) / 512) ⟨?_, ?_⟩ ((a - rd.buf) % 512) (Nat.mod_lt _ (by decide)) ?_
    · omega
    · omega
    · unfold RamdiskData.byte
      omega
  · -- a read takes the bytes of the disk, which are the latest data
    intro block hb i hi
    have hb' := hb
    unfold RamdiskReq.Names at hb'
    have hread : (ramdiskHandleRequest rd req mem).2 (req.byte block i) = mem (rd.byte block i) := by
      rw [(ramdiskHandleRequest_read hf (hapart hf) htype).2, RamdiskReq.byte, if_pos (by omega)]
      congr 1
      unfold RamdiskData.byte
      omega
    rw [hread]
    exact latestData_of_run h (hwhole block hf hb) hi
  · intro a ha
    rw [(ramdiskHandleRequest_read hf (hapart hf) htype).2, if_neg]
    rintro ⟨hle, hlt⟩
    refine ha (req.lba.toNat + (a - req.buf) / 512) ⟨?_, ?_⟩ ((a - req.buf) % 512)
      (Nat.mod_lt _ (by decide)) ?_
    · omega
    · omega
    · unfold RamdiskReq.byte
      omega

/-- Memory filled with zeroes. -/
def zeroMem : Mem := fun _ => 0

/-- A read of the second block of a disk of 1025 bytes, after a write to it. -/
theorem handlesRight_write_read :
    HandlesRight ⟨4096, 1025⟩ zeroMem [(zeroMem, .handleRequest ⟨1, 1, 0, .write⟩)]
      (ramdiskHandleRequest ⟨4096, 1025⟩ ⟨1, 1, 0, .write⟩ zeroMem).2 ⟨1, 1, 8192, .read⟩ :=
  handlesRight_of_run (.snoc (.nil zeroMem) (.handleRequest fun _ => .inl (by decide)))
    fun _ => .inr (by decide)

end GeekOS.Blockdev
