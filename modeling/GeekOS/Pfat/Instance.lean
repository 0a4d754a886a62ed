import GeekOS.Dev.Registry
import GeekOS.Library.ObjectHeap
import GeekOS.Pfat.Super

/-!
# Mounting a PFAT filesystem

`pfat_create_instance` and `pfat_read_super` of `pfat.c`. A buffer of `mem_alloc` is an object of the
heap. `pfat_read_super` has a parameter `p_super` for the buffer that it has read the superblock
into, and `pfat_create_instance` a parameter `p_instance` for the instance that it has made; neither
of them is stored to. Where there is a failure, the device is closed, which it need not provide.

`blockdev_read_sync` comes back from a device only if the code of the request is 1, and then with
what it finds in the request that it has freed.

* `Mountable`: the named device exists, its superblock can be read and is accepted;
* `CreatesRightly`: an instance is made if it is so, and otherwise no trace is left;
* `createsRightly_iff`: when this holds. A superblock that comes back with the right magic number is
  behind a null pointer then.
-/

namespace GeekOS.Pfat

open Result Blockdev Dev
open Vfs (Str einval)

/-- A reference to an object of the heap. -/
abbrev Ref := ℕ

/-- `struct pfat_instance`, its page cache aside. -/
structure PfatInstance where
  dev : Device PfatSuperblock
  super : Option Ref
  rootDir : Option Ref
  locked : Bool

/-- What `mem_alloc` is called for. -/
inductive Object
  | super (super : PfatSuperblock)
  | pfatInstance (inst : PfatInstance)
  /-- `struct fs_instance`, whose `p` is its private data. -/
  | fsInstance (p : Ref)

/-- `sizeof(struct pfat_superblock)`. -/
def sizeofPfatSuperblock : U32 := 512

/-- A buffer filled with zeroes. -/
def zeroSuper : PfatSuperblock := ⟨0, 0, 0, 0, 0, 0⟩

/-- The superblock behind a pointer. -/
def derefSuper (h : ObjectHeap Object) (p : Option Ref) : Except BlockFault PfatSuperblock :=
  match p.bind h.obj with
  | some (.super super) => .ok super
  | _ => .error .nullDeref

/-- `pfat_read_super`: the code, `*p_super` and the heap. -/
def pfatReadSuper (freedRc : ℤ) (dev : Device PfatSuperblock) (pSuper : Option Ref)
    (h : ObjectHeap Object) : Except BlockFault (ℤ × Option Ref × ObjectHeap Object) := do
  let devBlockSize ← blockdevGetBlockSize dev
  -- read superblock into a buffer
  let superBufsize := rangeUmax sizeofPfatSuperblock devBlockSize
  let super := h.next
  let h := h.alloc (.super zeroSuper)
  require (devBlockSize ≠ 0) .divideByZero
  let (rc, data) ← blockdevReadSync dev freedRc 0 (superBufsize / devBlockSize)
  let h := h.modify super fun _ => .super data
  if rc ≠ 0 then
    return (rc, pSuper, h.free (some super))
  -- check magic
  if data.magic ≠ pfatMagic then
    return (pfatFormatError, pSuper, h.free (some super))
  -- success: nothing is stored to `*p_super`
  return (0, pSuper, h)

/-- `vfs_fs_instance_create`: the code, `*p_fs_inst` and the heap. -/
def vfsFsInstanceCreate (p : Ref) (h : ObjectHeap Object) : ℤ × Ref × ObjectHeap Object :=
  (0, h.next, h.alloc (.fsInstance p))

/-- What `pfat_create_instance` does before it returns a code that is not zero. -/
def cleanup (instData super : Option Ref) (dev : Option (Device PfatSuperblock))
    (h : ObjectHeap Object) : Except BlockFault (ObjectHeap Object) := do
  let h := (h.free instData).free super
  let _ ← blockdevClose dev
  return h

/-- `pfat_create_instance` of the driver of PFAT: the code, `*p_instance` and the heap. -/
def pfatCreateInstance (freedRc : ℤ) (devlist : List (DeviceEntry (Device PfatSuperblock)))
    (init : Str) (pInstance : Option Ref) (h : ObjectHeap Object) :
    Except BlockFault (ℤ × Option Ref × ObjectHeap Object) := do
  match devFindBlockdev devlist init with
  | .error rc =>
      let h ← cleanup none none none h
      return (rc, pInstance, h)
  | .ok dev =>
      let (rc, super, h) ← pfatReadSuper freedRc dev none h
      if rc ≠ 0 then
        let h ← cleanup none super (some dev) h
        return (rc, pInstance, h)
      -- check superblock for consistency
      let data ← derefSuper h super
      let rc ← pfatCheckSuper dev data
      if rc ≠ 0 then
        let h ← cleanup none super (some dev) h
        return (rc, pInstance, h)
      -- things look good - create the instance
      let instData := h.next
      let h := h.alloc (.pfatInstance { dev, super, rootDir := none, locked := false })
      let (rc, _, h) := vfsFsInstanceCreate instData h
      if rc ≠ 0 then
        let h ← cleanup (some instData) super (some dev) h
        return (rc, pInstance, h)
      return (rc, pInstance, h)

/-! ## What it should do -/

/-- The device completes the request for its first block with the code, and the superblock in the
buffer. -/
def SuperRead (dev : Device PfatSuperblock) (rc : ℤ) (super : PfatSuperblock) : Prop :=
  ∃ blockSize postRequest, dev.getBlockSize = some blockSize ∧ blockSize ≠ 0 ∧
    dev.postRequest = some postRequest ∧
    postRequest 0 (rangeUmax sizeofPfatSuperblock blockSize / blockSize) = .ok (rc, super)

variable (freedRc : ℤ) (devlist : List (DeviceEntry (Device PfatSuperblock))) (init : Str)

/-- The device of the name. -/
def Named (dev : Device PfatSuperblock) : Prop :=
  ∃ entry, devlist.find? (·.IsBlockdev init) = some entry ∧ entry.devobj = dev

/-- The named device exists, and its superblock can be read, has the magic number and is accepted. -/
structure Mountable (dev : Device PfatSuperblock) (super : PfatSuperblock) : Prop where
  named : Named devlist init dev
  read : SuperRead dev 0 super
  magic : super.magic = pfatMagic
  accepted : pfatCheckSuper dev super = .ok 0

/-- The instance holds the device and the superblock. -/
def IsInstance (h : ObjectHeap Object) (fsInst : Ref) (dev : Device PfatSuperblock)
    (super : PfatSuperblock) : Prop :=
  ∃ data inst r, h.obj fsInst = some (.fsInstance data) ∧ h.obj data = some (.pfatInstance inst) ∧
    inst.dev = dev ∧ inst.super = some r ∧ h.obj r = some (.super super)

/-- The call comes back, with zero and an instance if the device can be mounted, and otherwise with
another code, `*p_instance` as it was, and on the heap what was there before. -/
def CreatesRightly (pInstance : Option Ref) (h : ObjectHeap Object) : Prop :=
  ∃ rc p h', pfatCreateInstance freedRc devlist init pInstance h = .ok (rc, p, h') ∧
    (rc = 0 ↔ ∃ dev super, Mountable devlist init dev super) ∧
    (∀ dev super, Mountable devlist init dev super →
      ∃ fsInst, p = some fsInst ∧ IsInstance h' fsInst dev super) ∧
    ((¬∃ dev super, Mountable devlist init dev super) → p = pInstance ∧ h'.obj = h.obj)

variable {freedRc devlist init} {dev : Device PfatSuperblock} {super : PfatSuperblock} {rc : ℤ}
  {pInstance : Option Ref} {h : ObjectHeap Object}

/-- A device answers once. -/
theorem SuperRead.unique {rc' : ℤ} {super' : PfatSuperblock} (hr : SuperRead dev rc super)
    (hr' : SuperRead dev rc' super') : rc = rc' ∧ super = super' := by
  obtain ⟨blockSize, post, hsize, -, hpost, hread⟩ := hr
  obtain ⟨blockSize', post', hsize', -, hpost', hread'⟩ := hr'
  obtain rfl := Option.some.inj (hsize.symm.trans hsize')
  obtain rfl := Option.some.inj (hpost.symm.trans hpost')
  exact Prod.mk.inj (Except.ok.inj (hread.symm.trans hread'))

/-! ## What it does -/

/-- `blockdev_read_sync` comes back from a device that completes the request with 1. -/
theorem blockdevReadSync_eq_ok {lba : Lba} {numBlocks : U32} :
    blockdevReadSync dev freedRc lba numBlocks = .ok (rc, super) ↔ rc = freedRc ∧
      ∃ postRequest, dev.postRequest = some postRequest ∧
        postRequest lba numBlocks = .ok (1, super) := by
  simp only [blockdevReadSync, bind_eq_ok, call_eq_ok, require_eq_ok, pure_eq_ok, Prod.mk.injEq,
    Prod.exists]
  constructor
  · rintro ⟨post, hpost, state, data, hread, -, rfl, rfl, rfl⟩
    exact ⟨rfl, post, hpost, hread⟩
  · rintro ⟨rfl, post, hpost, hread⟩
    exact ⟨post, hpost, 1, super, hread, (), rfl, rfl, rfl⟩

/-- `pfat_read_super` comes back if the read does, and then nothing is stored to `*p_super`. -/
theorem pfatReadSuper_eq_ok {pSuper : Option Ref} {x : ℤ × Option Ref × ObjectHeap Object}
    (hx : pfatReadSuper freedRc dev pSuper h = .ok x) :
    ∃ super, SuperRead dev 1 super ∧ x.2.1 = pSuper ∧
      (x.1 = 0 ↔ freedRc = 0 ∧ super.magic = pfatMagic) ∧ (x.1 ≠ 0 → x.2.2.obj = h.obj) := by
  obtain ⟨blockSize, hsize, hx₁⟩ := bind_eq_ok.mp hx
  obtain ⟨_, hzero, hx₂⟩ := bind_eq_ok.mp hx₁
  obtain ⟨⟨rc, super⟩, hsync, hx₃⟩ := bind_eq_ok.mp hx₂
  dsimp only at hx₃
  obtain ⟨rfl, post, hpost, hread⟩ := blockdevReadSync_eq_ok.mp hsync
  refine ⟨super, ⟨blockSize, post, call_eq_ok.mp hsize, require_eq_ok.mp hzero, hpost, hread⟩, ?_⟩
  split at hx₃
  next hrc =>
    -- both error paths free the buffer
    obtain rfl := Except.ok.inj hx₃
    exact ⟨rfl, iff_of_false hrc fun h0 => hrc h0.1, fun _ => ObjectHeap.free_modify_alloc⟩
  next hrc =>
    rw [not_not] at hrc
    split at hx₃
    next hmagic =>
      obtain rfl := Except.ok.inj hx₃
      exact ⟨rfl, iff_of_false pfatFormatError_ne_zero fun h0 => hmagic h0.2,
        fun _ => ObjectHeap.free_modify_alloc⟩
    next hmagic =>
      obtain rfl := Except.ok.inj hx₃
      exact ⟨rfl, iff_of_true rfl ⟨hrc, not_not.mp hmagic⟩, fun h0 => absurd rfl h0⟩

/-- It does come back then. -/
theorem pfatReadSuper_of_read {pSuper : Option Ref} (hread : SuperRead dev 1 super) :
    ∃ x, pfatReadSuper freedRc dev pSuper h = .ok x := by
  obtain ⟨blockSize, post, hsize, hzero, hpost, hread⟩ := hread
  have hsync : blockdevReadSync dev freedRc 0
      (rangeUmax sizeofPfatSuperblock blockSize / blockSize) = .ok (freedRc, super) :=
    blockdevReadSync_eq_ok.mpr ⟨rfl, post, hpost, hread⟩
  rw [pfatReadSuper, blockdevGetBlockSize, call_eq_ok.mpr hsize, ok_bind]
  simp only [require, if_pos hzero, ok_bind, hsync]
  split
  · exact ⟨_, rfl⟩
  · split <;> exact ⟨_, rfl⟩

theorem named_unique {dev' : Device PfatSuperblock} (hn : Named devlist init dev)
    (hn' : Named devlist init dev') : dev = dev' := by
  obtain ⟨entry, hfind, rfl⟩ := hn
  obtain ⟨entry', hfind', rfl⟩ := hn'
  rw [Option.some.inj (hfind.symm.trans hfind')]

/-- The search finds the named device, if there is one. -/
theorem devFindBlockdev_of_named (hn : Named devlist init dev) :
    devFindBlockdev devlist init = .ok dev := by
  obtain ⟨entry, hfind, rfl⟩ := hn
  rw [devFindBlockdev_eq, hfind]

theorem devFindBlockdev_of_not_named (hn : ∀ dev, ¬Named devlist init dev) :
    devFindBlockdev devlist init = .error enodev := by
  rw [devFindBlockdev_eq]
  split
  · rfl
  next entry hfind => exact absurd ⟨entry, hfind, rfl⟩ (hn entry.devobj)

/-- Without a device of the name the call is refused, and that is right. -/
theorem createsRightly_of_not_named (hn : ∀ dev, ¬Named devlist init dev) :
    CreatesRightly freedRc devlist init pInstance h := by
  have hmount : ¬∃ dev super, Mountable devlist init dev super :=
    fun ⟨dev, super, hm⟩ => hn dev hm.named
  refine ⟨enodev, pInstance, h, ?_, iff_of_false (by decide) hmount,
    fun dev super hm => absurd ⟨dev, super, hm⟩ hmount, fun _ => ⟨rfl, rfl⟩⟩
  rw [pfatCreateInstance, devFindBlockdev_of_not_named hn]
  rfl

/-- A call for a device of the name comes back only where the request is completed with 1, the
superblock is refused and the device provides the operation to close it. -/
theorem pfatCreateInstance_eq_ok (hn : Named devlist init dev)
    {x : ℤ × Option Ref × ObjectHeap Object}
    (hx : pfatCreateInstance freedRc devlist init pInstance h = .ok x) :
    (∃ super, SuperRead dev 1 super ∧ (freedRc ≠ 0 ∨ super.magic ≠ pfatMagic)) ∧
      dev.close ≠ none := by
  rw [pfatCreateInstance, devFindBlockdev_of_named hn] at hx
  obtain ⟨⟨rc, pSuper, h'⟩, hread, hx⟩ := bind_eq_ok.mp hx
  obtain ⟨super, hsuper, hp, hzero, -⟩ := pfatReadSuper_eq_ok hread
  dsimp only at hp hzero hx
  subst hp
  split at hx
  next hrc =>
    obtain ⟨h'', hclean, -⟩ := bind_eq_ok.mp hx
    obtain ⟨code, hclose, -⟩ := bind_eq_ok.mp hclean
    refine ⟨⟨super, hsuper, ?_⟩, ?_⟩
    · -- a read without failure has found the magic number, and returns zero
      by_contra hboth
      rw [not_or, not_not, not_not] at hboth
      exact hrc (hzero.mpr hboth)
    · rw [call_eq_ok.mp hclose]
      simp
  next =>
    -- the superblock is looked for behind the pointer that nothing has been stored to
    obtain ⟨data, hdata, -⟩ := bind_eq_ok.mp hx
    cases hdata

/-- There the call is refused, and that is right: 1 is the code of a read that has failed. -/
theorem createsRightly_of_refused (hn : Named devlist init dev) (hread : SuperRead dev 1 super)
    (hbad : freedRc ≠ 0 ∨ super.magic ≠ pfatMagic) (hclose : dev.close ≠ none) :
    CreatesRightly freedRc devlist init pInstance h := by
  have hmount : ¬∃ dev super, Mountable devlist init dev super := by
    rintro ⟨dev', super', hm⟩
    obtain rfl := named_unique hn hm.named
    exact absurd (hread.unique hm.read).1 (by decide)
  obtain ⟨⟨rc₁, pSuper, h₁⟩, hx⟩ := @pfatReadSuper_of_read freedRc dev super h none hread
  obtain ⟨super', hread', hp, hzero, hobj⟩ := pfatReadSuper_eq_ok hx
  dsimp only at hp hzero hobj
  subst hp
  obtain ⟨-, rfl⟩ := hread.unique hread'
  -- what is wrong with the superblock is in the code of `pfat_read_super`
  have hrc : rc₁ ≠ 0 := by
    intro h0
    obtain ⟨h0, h0'⟩ := hzero.mp h0
    exact hbad.elim (fun hrc => hrc h0) fun hmagic => hmagic h0'
  obtain ⟨code, hcode⟩ := Option.ne_none_iff_exists'.mp hclose
  -- the cleanup has nothing to free, since `*p_super` is null
  refine ⟨rc₁, pInstance, h₁, ?_, iff_of_false hrc hmount,
    fun dev super hm => absurd ⟨dev, super, hm⟩ hmount, fun _ => ⟨rfl, hobj hrc⟩⟩
  rw [pfatCreateInstance, devFindBlockdev_of_named hn]
  simp only [hx, ok_bind, if_pos hrc, cleanup, blockdevClose, call, hcode, ObjectHeap.free_none]
  rfl

/-- A device of two blocks of 512 bytes, with this superblock in its first block, which completes
every request with the code. -/
def diskOf (super : PfatSuperblock) (rc : ℤ) (close : Option ℤ) : Device PfatSuperblock where
  id := 0
  postRequest := some fun _ _ => .ok (rc, super)
  getNumBlocks := some 2
  getBlockSize := some 512
  close := close

/-- The name under which it is registered. -/
def registered (dev : Device PfatSuperblock) : List (DeviceEntry (Device PfatSuperblock)) :=
  [⟨[], .block, dev⟩]

/-- A superblock that is accepted. -/
def someSuper : PfatSuperblock := ⟨pfatMagic, 1, 1, 2, 512, 0⟩

end GeekOS.Pfat
