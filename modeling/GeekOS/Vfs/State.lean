import Mathlib.Data.Int.Notation
import GeekOS.Library.LinkedList
import GeekOS.Vfs.Path

/-!
# The virtual file system

The state of `vfs.c`: the tree of inodes with their reference counts, busy marks and child lists,
the mounted file systems, the mutexes, and the place in the code where each thread is.

* A pointer to an inode is an `InodeId`. The fields of `struct inode` are maps on the identities;
  an inode that a driver creates later has from the start the fields it is created with.
* A thread is at a statement in front of which something can happen in other threads: a lock, a
  wait, a call of a driver, or a round of a loop.
* `State.live` and `State.returned` are history. No function of the kernel reads them.
-/

namespace GeekOS.Vfs

/-- `struct inode *`. -/
abbrev InodeId := ℕ

/-- `struct fs_instance *`. -/
abbrev InstanceId := ℕ

/-- `vfs_inode_type_t`. -/
inductive InodeType
  | file | dir
  deriving DecidableEq, Repr

/-! ## Where a thread is -/

/-- The callers of `vfs_get_root_dir`: one outside of `vfs.c`, or `vfs_mount` with its arguments. -/
inductive RootCaller
  | direct
  | mount (path fsDriverName : Str)
  deriving DecidableEq, Repr

/-- The callers of `vfs_lookup_inode`. -/
inductive LookupCaller
  | direct
  | mount (rootDir : InodeId) (fsDriverName : Str)
  deriving DecidableEq, Repr

/-- A call of `vfs_lookup_inode`. -/
structure Lookup where
  caller : LookupCaller
  startDir : InodeId
  path : Str
  deriving DecidableEq, Repr

/-- One round of its loop: `name` is looked up in `dir`, and then `path` in what it is. -/
structure Search where
  lookup : Lookup
  dir : InodeId
  name : Str
  path : Str
  deriving DecidableEq, Repr

/-- A call of `vfs_mount` that has found its mount point. -/
structure Mount where
  fsDriverName : Str
  rootDir : InodeId
  mountpoint : InodeId
  deriving DecidableEq, Repr

/-- The callers of `vfs_release_ref`. In `vfs_mount` the mount point is released before the root
directory; each of them may be null. -/
inductive ReleaseCaller
  | direct
  | mountpoint (rootDir : Option InodeId) (rc : ℤ)
  | rootDir (mountpoint : Option InodeId) (rc : ℤ)
  deriving DecidableEq, Repr

/-- The callers of `vfs_adjust_refcounts`. -/
inductive AdjustCaller
  | lookupStart (l : Lookup)
  | lookupFailed (l : Lookup) (rc : ℤ)
  | release (c : ReleaseCaller) (inode : InodeId)
  | mounted (m : Mount)
  deriving DecidableEq, Repr

/-- Where a thread is. -/
inductive Pc
  /-- Outside of the functions of `vfs.c`. -/
  | idle
  /-- In `vfs_get_root_dir`, at its first `mutex_lock`. -/
  | getRootDirLock (c : RootCaller)
  /-- At the test of `s_root_dir`. -/
  | getRootDir (c : RootCaller)
  /-- At the `mutex_lock` behind the label `done`. -/
  | getRootDirDone (c : RootCaller) (dir : Except ℤ InodeId)
  /-- In `vfs_lookup_inode`, at its assertions. -/
  | lookupInode (l : Lookup)
  /-- At its `mutex_lock`. -/
  | lookupLock (l : Lookup)
  /-- At the head of its loop. -/
  | lookupLoop (l : Lookup) (inode : InodeId) (path : Str)
  /-- At the head of the loop of `vfs_lock_dir`. -/
  | lockDir (x : Search)
  /-- In its `cond_wait`, which has released the mutex. -/
  | condWait (x : Search)
  /-- In the loop of `vfs_lookup_child`. -/
  | search (x : Search) (child : Option InodeId)
  /-- In the driver's `lookup`. -/
  | driverLookup (x : Search)
  /-- At the `mutex_lock` behind it. -/
  | lookupRelock (x : Search) (child : Except ℤ InodeId)
  /-- At `vfs_unlock_dir`. -/
  | unlockDir (x : Search) (child : Except ℤ InodeId)
  /-- At the `mutex_unlock` of `vfs_lookup_inode`. -/
  | lookupUnlock (l : Lookup) (inode : Except ℤ InodeId)
  /-- At the head of the loop of `vfs_adjust_refcounts`. -/
  | adjustRefcounts (c : AdjustCaller) (inode : Option InodeId) (delta : ℤ)
  /-- At the beginning of `vfs_release_ref`. -/
  | releaseRef (c : ReleaseCaller) (inode : Option InodeId)
  /-- At its assertion. -/
  | releaseCheck (c : ReleaseCaller) (inode : InodeId)
  /-- At its `mutex_unlock`. -/
  | releaseUnlock (c : ReleaseCaller) (inode : InodeId)
  /-- In `vfs_mount`, at its tests of the mount point. -/
  | mountCheck (m : Mount)
  /-- At its `mutex_lock`. -/
  | mountLock (m : Mount)
  /-- At `vfs_do_mount`. -/
  | mountDo (m : Mount)
  /-- At the stores of a successful mount. -/
  | mountStore (m : Mount) (mountRootDir : Option InodeId)
  /-- At its `mutex_unlock`. -/
  | mountUnlock (m : Mount) (rc : ℤ)
  /-- In `vfs_mount_root`, at its `mutex_lock`. -/
  | mountRootLock (fsDriverName : Str)
  /-- At `vfs_do_mount`. -/
  | mountRootDo (fsDriverName : Str)
  /-- At its `mutex_unlock`. -/
  | mountRootUnlock (rc : ℤ)
  deriving DecidableEq, Repr

/-- The thread holds `s_fs_mutex` there. -/
def Pc.holds : Pc → Bool
  | getRootDir _ | getRootDirDone .. | lookupLoop .. | lockDir _ | search .. | unlockDir ..
  | lookupUnlock .. | adjustRefcounts .. | releaseCheck .. | releaseUnlock .. | mountDo _
  | mountStore .. | mountUnlock .. | mountRootDo _ | mountRootUnlock _ => true
  | _ => false

/-- The next statement of the thread locks `s_fs_mutex`. -/
def Pc.locks : Pc → Bool
  | getRootDirLock _ | getRootDirDone .. | lookupLock _ | condWait _ | lookupRelock ..
  | releaseRef _ (some _) | mountLock _ | mountRootLock _ => true
  | _ => false

/-- A driver answers before the thread goes on. -/
def Pc.inDriver : Pc → Bool
  | driverLookup _ | mountDo _ | mountRootDo _ => true
  | _ => false

/-- The directory that the thread has marked as busy. -/
def Pc.marked : Pc → Option InodeId
  | search x _ | driverLookup x | lookupRelock x _ | unlockDir x _ => some x.dir
  | _ => none

/-! ## The state -/

/-- What calls of the public functions have returned. -/
inductive Return (T : Type)
  | mountRoot (t : T) (rc : ℤ)
  | mount (t : T) (mountpoint : Option InodeId) (rc : ℤ)
  | getRootDir (t : T) (dir : Except ℤ InodeId)
  | lookupInode (t : T) (startDir : InodeId) (path : Str) (inode : Except ℤ InodeId)
  | releaseRef (t : T) (inode : Option InodeId)
  deriving DecidableEq, Repr

/-- The virtual file system, and the threads `T`. -/
structure State (T : Type) where
  /-- `s_fs_mutex`. -/
  fsMutex : Option T
  /-- `s_driver_list_mutex`. -/
  driverListMutex : Option T
  /-- `s_driver_list`, by the names of the drivers. -/
  driverList : List Str
  /-- `s_root_instance`. -/
  rootInstance : Option InstanceId
  /-- `s_root_dir`. -/
  rootDir : Option InodeId
  /-- `s_inst_list`. -/
  instList : List InstanceId
  parent : InodeId → Option InodeId
  type : InodeId → InodeType
  name : InodeId → Option Str
  mount : InodeId → Option InodeId
  childList : InodeId → LinkedList.Head InodeId
  link : InodeId → LinkedList.Link InodeId
  refcount : InodeId → ℤ
  busy : InodeId → Bool
  /-- The wait queue of `inode_cond`. -/
  inodeCond : InodeId → List T
  pc : T → Pc
  /-- The instances that the drivers have been told to close. -/
  closed : List InstanceId
  /-- History: the references that threads have got from `vfs_lookup_inode` or had at the start,
  and have not released. -/
  live : List InodeId
  /-- History: what calls have returned, the last one first. -/
  returned : List (Return T)

/-- What `create_instance` and `get_root` of a driver return, with what they store. -/
structure DriverResults where
  createInstance : ℤ × Option InstanceId
  getRoot : ℤ × Option InodeId
  deriving DecidableEq, Repr

/-- What can happen next. -/
inductive Event (T : Type)
  /-- A thread calls `vfs_mount_root`. -/
  | mountRoot (t : T) (fsDriverName : Str)
  /-- It calls `vfs_mount`. -/
  | mount (t : T) (path fsDriverName : Str)
  /-- It calls `vfs_get_root_dir`. -/
  | getRootDir (t : T)
  /-- It calls `vfs_lookup_inode`. -/
  | lookupInode (t : T) (startDir : InodeId) (path : Str)
  /-- It calls `vfs_release_ref`. -/
  | releaseRef (t : T) (inode : Option InodeId)
  /-- It calls `vfs_register_fs_driver`. -/
  | registerFsDriver (t : T) (name : Str)
  /-- It goes through its next section. -/
  | resume (t : T)
  /-- The driver's `lookup` returns to it. -/
  | driverLookup (t : T) (rc : ℤ) (inode : Option InodeId)
  /-- It goes through `vfs_do_mount`, with these results of the driver. -/
  | doMount (t : T) (r : DriverResults)
  deriving DecidableEq, Repr

/-- The thread that takes a step. -/
def Event.thread {T : Type} : Event T → T
  | mountRoot t _ | mount t _ _ | getRootDir t | lookupInode t _ _ | releaseRef t _
  | registerFsDriver t _ | resume t | driverLookup t _ _ | doMount t _ => t

end GeekOS.Vfs
