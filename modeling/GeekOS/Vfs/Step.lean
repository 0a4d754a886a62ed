import GeekOS.Library.Execution
import GeekOS.Library.Threads
import GeekOS.Vfs.State

/-!
# The functions of `vfs.c`

Each definition is the function of this name, or the part of it between two points of `Pc`.
`State.exec` carries out an event: a call from outside, the next section of a thread, or the answer
of a driver.

`vfs_do_mount` runs to its end under `s_fs_mutex`; it is one section, which is given the results of
the driver that it calls.
-/

namespace GeekOS.Vfs

open Result

variable {T : Type} [DecidableEq T]

namespace State

variable (s : State T)

/-- Move a thread. -/
def goto (t : T) (p : Pc) : State T := { s with pc := Function.update s.pc t p }

/-- Store a reference count. -/
def setRefcount (i : InodeId) (n : ℤ) : State T :=
  { s with refcount := Function.update s.refcount i n }

/-- Record what a call has returned. -/
def record (r : Return T) : State T := { s with returned := r :: s.returned }

/-- `mutex_lock(&s_fs_mutex)`. -/
def mutexLock (t : T) : Except Fault (State T) := do
  let owner ← Threads.lock Fault.mutexHeld t s.fsMutex
  pure { s with fsMutex := owner }

/-- `mutex_unlock(&s_fs_mutex)`. -/
def mutexUnlock (t : T) : Except Fault (State T) := do
  let owner ← Threads.unlock Fault.mutexNotHeld t s.fsMutex
  pure { s with fsMutex := owner }

/-! ## Returns -/

/-- `vfs_lookup_inode` returns to its caller; `vfs_mount` goes on with the inode or gives up. -/
def returnLookup (t : T) (l : Lookup) (inode : Except ℤ InodeId) : State T :=
  match l.caller, inode with
  | .direct, .ok i =>
      { (s.goto t .idle).record (.lookupInode t l.startDir l.path inode) with live := i :: s.live }
  | .direct, .error _ => (s.goto t .idle).record (.lookupInode t l.startDir l.path inode)
  | .mount rootDir fsDriverName, .ok i =>
      s.goto t (.mountCheck { fsDriverName, rootDir, mountpoint := i })
  | .mount rootDir _, .error rc => s.goto t (.releaseRef (.mountpoint rootDir rc) none)

/-- `vfs_get_root_dir` returns to its caller. -/
def returnGetRootDir (t : T) (c : RootCaller) (dir : Except ℤ InodeId) : State T :=
  match c, dir with
  | .direct, _ => (s.goto t .idle).record (.getRootDir t dir)
  | .mount path fsDriverName, .ok d =>
      s.goto t (.lookupInode { caller := .mount d fsDriverName, startDir := d, path })
  | .mount .., .error rc => s.goto t (.releaseRef (.mountpoint none rc) none)

/-- `vfs_release_ref` returns to its caller. -/
def returnRelease (t : T) (c : ReleaseCaller) (inode : Option InodeId) : State T :=
  let s := s.record (.releaseRef t inode)
  match c with
  | .direct => s.goto t .idle
  | .mountpoint rootDir rc => s.goto t (.releaseRef (.rootDir inode rc) rootDir)
  | .rootDir mountpoint rc => (s.goto t .idle).record (.mount t mountpoint rc)

/-! ## Sections -/

/-- `vfs_get_root_dir`, between its two calls of `mutex_lock`. -/
def vfsGetRootDir (t : T) (c : RootCaller) : State T :=
  match s.rootDir with
  | none => s.goto t (.getRootDirDone c (.error eexist))
  | some d => (s.setRefcount d (s.refcount d + 1)).goto t (.getRootDirDone c (.ok d))

/-- `vfs_lookup_inode`, in front of its `mutex_lock`. -/
def vfsLookupInode (t : T) (l : Lookup) : Except Fault (State T) := do
  require (l.path.head? ≠ some slash) .relativePath
  require (0 < s.refcount l.startDir) .refcount
  if strnlen l.path (vfsPathlenMax + 1) > vfsPathlenMax then
    pure (s.returnLookup t l (.error einval))
  else
    pure (s.goto t (.lookupLock l))

/-- `vfs_adjust_refcounts` returns to its caller. -/
def adjusted (t : T) : AdjustCaller → State T
  | .lookupStart l => s.goto t (.lookupLoop l l.startDir l.path)
  | .lookupFailed l rc => s.goto t (.lookupUnlock l (.error rc))
  | .release c inode => s.goto t (.releaseUnlock c inode)
  | .mounted m => s.goto t (.mountUnlock m 0)

/-- One round of `vfs_adjust_refcounts`. -/
def vfsAdjustRefcounts (t : T) (c : AdjustCaller) (inode : Option InodeId) (delta : ℤ) :
    Except Fault (State T) := do
  require (s.fsMutex = some t) .mutexNotHeld
  match inode with
  | none => pure (s.adjusted t c)
  | some i =>
      require (0 ≤ s.refcount i) .adjustRefcounts
      require (0 < delta ∨ 0 < s.refcount i) .adjustRefcounts
      pure ((s.setRefcount i (s.refcount i + delta)).goto t
        (.adjustRefcounts c (s.parent i) delta))

/-- The label `done` of `vfs_lookup_inode`, where the search has failed. -/
def lookupFailed (t : T) (l : Lookup) (inode : InodeId) (rc : ℤ) : State T :=
  s.goto t (.adjustRefcounts (.lookupFailed l rc) (some inode) (-1))

/-- The head of the loop of `vfs_lookup_inode`, and what is in front of `vfs_lock_dir`. -/
def lookupLoop (t : T) (l : Lookup) (inode : InodeId) (path : Str) : Except Fault (State T) := do
  if vfsHasMorePathElements path then
    match ← vfsGetNextPathElement path with
    | .error rc => pure (s.lookupFailed t l inode rc)
    | .ok (name, rest) =>
        if s.type inode ≠ .dir then
          pure (s.lookupFailed t l inode enotdir)
        else
          pure (s.goto t (.lockDir { lookup := l, dir := inode, name, path := rest }))
  else
    require (0 < s.refcount inode) .refcount
    pure (s.goto t (.lookupUnlock l (.ok inode)))

/-- One round of `vfs_lock_dir`. When the directory is not busy it is marked, and
`vfs_lookup_child` begins with its assertions. -/
def vfsLockDir (t : T) (x : Search) : Except Fault (State T) := do
  require (s.fsMutex = some t) .mutexNotHeld
  if s.busy x.dir then
    let s ← s.mutexUnlock t
    pure { s.goto t (.condWait x) with
      inodeCond := Function.update s.inodeCond x.dir (s.inodeCond x.dir ++ [t]) }
  else
    require (s.type x.dir = .dir) .notDir
    pure { s.goto t (.search x (s.childList x.dir).first) with
      busy := Function.update s.busy x.dir true }

/-- One round of the loop of `vfs_lookup_child`, which compares the name with the name of the
directory; behind its end the mutex is released for the driver. -/
def vfsLookupChild (t : T) (x : Search) (child : Option InodeId) : Except Fault (State T) := do
  match child with
  | none =>
      let s ← s.mutexUnlock t
      pure (s.goto t (.driverLookup x))
  | some i =>
      match s.name x.dir with
      | none => throw .nullPointer
      | some dirName =>
          if strncmp x.name dirName vfsNamelenMax = 0 then
            pure (s.goto t (.unlockDir x (.ok i)))
          else
            pure (s.goto t (.search x (s.link i).next))

/-- The driver's `lookup` returns to `vfs_lookup_child`, which appends what it has found to the
child list of the directory. -/
def driverLookupReturns (t : T) (x : Search) (rc : ℤ) (inode : Option InodeId) :
    Except Fault (State T) :=
  if rc = 0 then
    match inode with
    | none => throw .nullPointer
    | some i =>
        let (head, link) := LinkedList.append (s.childList x.dir) s.link i
        pure { s.goto t (.lookupRelock x (.ok i)) with
          childList := Function.update s.childList x.dir head
          link := link }
  else
    pure (s.goto t (.lookupRelock x (.error rc)))

/-- `vfs_unlock_dir`, and the rest of the round of the loop of `vfs_lookup_inode`. -/
def vfsUnlockDir (t : T) (x : Search) (child : Except ℤ InodeId) : Except Fault (State T) := do
  require (s.fsMutex = some t) .mutexNotHeld
  require (s.busy x.dir) .notBusy
  let s := { s with
    busy := Function.update s.busy x.dir false
    inodeCond := Function.update s.inodeCond x.dir [] }
  match child with
  | .error rc => pure (s.lookupFailed t x.lookup x.dir rc)
  | .ok i => pure ((s.setRefcount i (s.refcount i + 1)).goto t (.lookupLoop x.lookup i x.path))

/-- The tests of the mount point in `vfs_mount`. -/
def mountCheck (t : T) (m : Mount) : State T :=
  if s.type m.mountpoint ≠ .dir then
    s.goto t (.releaseRef (.mountpoint m.rootDir enotdir) m.mountpoint)
  else if s.mount m.mountpoint ≠ none then
    s.goto t (.releaseRef (.mountpoint m.rootDir eexist) m.mountpoint)
  else
    s.goto t (.mountLock m)

/-- `vfs_find_fs_driver`. -/
def vfsFindFsDriver (t : T) (name : Str) : Except Fault (Except ℤ Str) := do
  let owner ← Threads.lock .mutexHeld t s.driverListMutex
  let fsDriver := s.driverList.find? fun driver => strcmp name driver = 0
  let _ ← Threads.unlock Fault.mutexNotHeld t owner
  match fsDriver with
  | some driver => pure (.ok driver)
  | none => pure (.error einval)

/-- `vfs_register_fs_driver`. -/
def vfsRegisterFsDriver (t : T) (name : Str) : Except Fault (State T) := do
  let owner ← Threads.lock .mutexHeld t s.driverListMutex
  let s := { s with driverList := name :: s.driverList }
  let owner ← Threads.unlock .mutexNotHeld t owner
  pure { s with driverListMutex := owner }

/-- The label `done` of `vfs_do_mount`, where it has failed. -/
def doMountFailed (rc : ℤ) (inst : Option InstanceId) (rootDir : Option InodeId) :
    Except Fault (ℤ × Option InodeId × State T) := do
  require (rootDir = none) .rootDir
  match inst with
  | none => pure (rc, none, s)
  | some inst => pure (rc, none, { s with closed := inst :: s.closed })

/-- `vfs_do_mount`: its return code, what it stores in `*p_root_dir`, and the state behind it. -/
def vfsDoMount (t : T) (fsDriverName : Str) (mountpoint : Option InodeId) (r : DriverResults) :
    Except Fault (ℤ × Option InodeId × State T) := do
  require (s.fsMutex = some t) .mutexNotHeld
  require (∀ m ∈ mountpoint, s.type m = .dir ∧ s.mount m = none) .mountpoint
  if mountpoint = none ∧ s.rootInstance ≠ none then
    s.doMountFailed eexist none none
  else
    match ← s.vfsFindFsDriver t fsDriverName with
    | .error rc => s.doMountFailed rc none none
    | .ok _ =>
        let (rc, inst) := r.createInstance
        if rc ≠ 0 then
          s.doMountFailed rc inst none
        else
          match inst with
          | none => throw .nullPointer
          | some inst =>
              let (rc, rootDir) := r.getRoot
              if rc ≠ 0 then
                s.doMountFailed rc inst rootDir
              else
                pure (0, rootDir, { s with instList := s.instList ++ [inst] })

/-- `vfs_do_mount` in `vfs_mount`. -/
def mountDo (t : T) (m : Mount) (r : DriverResults) : Except Fault (State T) := do
  let (rc, mountRootDir, s) ← s.vfsDoMount t m.fsDriverName none r
  if rc = 0 then
    pure (s.goto t (.mountStore m mountRootDir))
  else
    pure (s.goto t (.mountUnlock m rc))

/-- The stores of `vfs_mount`. -/
def mountStore (t : T) (m : Mount) (mountRootDir : Option InodeId) : Except Fault (State T) :=
  match mountRootDir with
  | none => throw .nullPointer
  | some root =>
      pure { s.goto t (.adjustRefcounts (.mounted m) (some m.mountpoint) 1) with
        mount := Function.update s.mount m.mountpoint (some root)
        parent := Function.update s.parent root (s.parent m.mountpoint) }

/-- `vfs_do_mount` in `vfs_mount_root`. -/
def mountRootDo (t : T) (fsDriverName : Str) (r : DriverResults) : Except Fault (State T) := do
  let (rc, rootDir, s) ← s.vfsDoMount t fsDriverName none r
  let s := if rc = 0 then { s with rootDir } else s
  pure (s.goto t (.mountRootUnlock rc))

/-- A thread goes through its next section. -/
def resume (t : T) : Except Fault (State T) :=
  match s.pc t with
  | .getRootDirLock c => do
      let s ← s.mutexLock t
      pure (s.goto t (.getRootDir c))
  | .getRootDir c => pure (s.vfsGetRootDir t c)
  | .getRootDirDone c dir => do
      let s ← s.mutexLock t
      pure (s.returnGetRootDir t c dir)
  | .lookupInode l => s.vfsLookupInode t l
  | .lookupLock l => do
      let s ← s.mutexLock t
      pure (s.goto t (.adjustRefcounts (.lookupStart l) (some l.startDir) 1))
  | .adjustRefcounts c inode delta => s.vfsAdjustRefcounts t c inode delta
  | .lookupLoop l inode path => s.lookupLoop t l inode path
  | .lockDir x => s.vfsLockDir t x
  | .condWait x => do
      let s ← s.mutexLock t
      pure (s.goto t (.lockDir x))
  | .search x child => s.vfsLookupChild t x child
  | .lookupRelock x child => do
      let s ← s.mutexLock t
      pure (s.goto t (.unlockDir x child))
  | .unlockDir x child => s.vfsUnlockDir t x child
  | .lookupUnlock l inode => do
      let s ← s.mutexUnlock t
      pure (s.returnLookup t l inode)
  | .releaseRef c none => pure (s.returnRelease t c none)
  | .releaseRef c (some i) => do
      let s ← s.mutexLock t
      pure (s.goto t (.releaseCheck c i))
  | .releaseCheck c i => do
      require (0 < s.refcount i) .refcount
      pure (s.goto t (.adjustRefcounts (.release c i) (some i) (-1)))
  | .releaseUnlock c i => do
      let s ← s.mutexUnlock t
      pure (s.returnRelease t c (some i))
  | .mountCheck m => pure (s.mountCheck t m)
  | .mountLock m => do
      let s ← s.mutexLock t
      pure (s.goto t (.mountDo m))
  | .mountStore m mountRootDir => s.mountStore t m mountRootDir
  | .mountUnlock m rc => do
      let s ← s.mutexUnlock t
      pure (s.goto t (.releaseRef (.mountpoint m.rootDir rc) m.mountpoint))
  | .mountRootLock fsDriverName => do
      let s ← s.mutexLock t
      pure (s.goto t (.mountRootDo fsDriverName))
  | .mountRootUnlock rc => do
      let s ← s.mutexUnlock t
      pure ((s.goto t .idle).record (.mountRoot t rc))
  | .idle | .driverLookup _ | .mountDo _ | .mountRootDo _ => pure s

/-- Carry out an event. -/
def exec : Event T → Except Fault (State T)
  | .mountRoot t fsDriverName => pure (s.goto t (.mountRootLock fsDriverName))
  | .mount t path fsDriverName => pure (s.goto t (.getRootDirLock (.mount path fsDriverName)))
  | .getRootDir t => pure (s.goto t (.getRootDirLock .direct))
  | .lookupInode t startDir path =>
      pure (s.goto t (.lookupInode { caller := .direct, startDir, path }))
  | .releaseRef t inode =>
      pure { s.goto t (.releaseRef .direct inode) with
        live := match inode with
          | none => s.live
          | some i => s.live.erase i }
  | .registerFsDriver t name => s.vfsRegisterFsDriver t name
  | .resume t => s.resume t
  | .driverLookup t rc inode =>
      match s.pc t with
      | .driverLookup x => s.driverLookupReturns t x rc inode
      | _ => pure s
  | .doMount t r =>
      match s.pc t with
      | .mountDo m => s.mountDo t m r
      | .mountRootDo fsDriverName => s.mountRootDo t fsDriverName r
      | _ => pure s

/-- The thread is asleep on the condition of a directory. -/
def Asleep (t : T) : Prop :=
  match s.pc t with
  | .condWait x => t ∈ s.inodeCond x.dir
  | _ => False

instance (t : T) : Decidable (s.Asleep t) := by
  unfold Asleep
  split <;> infer_instance

/-- The driver's `lookup` is running for the thread. -/
def InLookup (t : T) : Prop :=
  match s.pc t with
  | .driverLookup _ => True
  | _ => False

instance (t : T) : Decidable (s.InLookup t) := by
  unfold InLookup
  split <;> infer_instance

/-- The thread is at `vfs_do_mount`. -/
def AtDoMount (t : T) : Prop :=
  match s.pc t with
  | .mountDo _ | .mountRootDo _ => True
  | _ => False

instance (t : T) : Decidable (s.AtDoMount t) := by
  unfold AtDoMount
  split <;> infer_instance

/-- The event can come now. A thread that comes to a locked mutex waits. -/
def Enabled : Event T → Prop
  | .mountRoot t _ | .mount t _ _ | .getRootDir t | .lookupInode t _ _ | .releaseRef t _
  | .registerFsDriver t _ => s.pc t = .idle
  | .resume t =>
      s.pc t ≠ .idle ∧ (s.pc t).inDriver = false ∧ ¬s.Asleep t ∧
        ((s.pc t).locks = true → Threads.Ready t s.fsMutex)
  | .driverLookup t _ _ => s.InLookup t
  | .doMount t _ => s.AtDoMount t

instance (e : Event T) : Decidable (s.Enabled e) := by
  cases e <;> unfold Enabled <;> infer_instance

/-- One step. -/
def Step : State T → Event T → State T → Prop := TransitionSystem.stepOf Enabled exec

/-- The state after the boot: no driver is registered and nothing is mounted. -/
def initial : State T where
  fsMutex := none
  driverListMutex := none
  driverList := []
  rootInstance := none
  rootDir := none
  instList := []
  parent _ := none
  type _ := .dir
  name _ := none
  mount _ := none
  childList _ := .empty
  link _ := ⟨none, none⟩
  refcount _ := 0
  busy _ := false
  inodeCond _ := []
  pc _ := .idle
  closed := []
  live := []
  returned := []

end State

end GeekOS.Vfs
