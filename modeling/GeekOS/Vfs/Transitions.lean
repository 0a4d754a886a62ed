import GeekOS.Vfs.Step

/-!
# The steps of the file system

What each step does to the state, read off the functions of `vfs.c` once.

* `Entry`, `Locking`: the calls from outside, and the sections that only lock `s_fs_mutex`;
* `Transition`: all steps, with the states they lead to;
* `Step.transition`: a step is one of them;
* `Fails`, `fails_of_exec`: where the assertions on the mutexes and on the reference counts fail.
-/

namespace GeekOS.Vfs

open Result

/-- A fault of a mutex. -/
def Fault.ofMutex : Fault → Bool
  | mutexHeld | mutexNotHeld => true
  | _ => false

/-- The calls from outside that only move the thread to the beginning of a function. -/
inductive Entry {T : Type} : Event T → T → Pc → Prop
  | mountRoot (t : T) (fsDriverName : Str) :
      Entry (.mountRoot t fsDriverName) t (.mountRootLock fsDriverName)
  | mount (t : T) (path fsDriverName : Str) :
      Entry (.mount t path fsDriverName) t (.getRootDirLock (.mount path fsDriverName))
  | getRootDir (t : T) : Entry (.getRootDir t) t (.getRootDirLock .direct)
  | lookupInode (t : T) (startDir : InodeId) (path : Str) :
      Entry (.lookupInode t startDir path) t
        (.lookupInode { caller := .direct, startDir, path })

/-- A thread that locks the mutex, and where it goes on. -/
inductive Locking : Pc → Pc → Prop
  | getRootDir (c : RootCaller) : Locking (.getRootDirLock c) (.getRootDir c)
  | lookup (l : Lookup) :
      Locking (.lookupLock l) (.adjustRefcounts (.lookupStart l) (some l.startDir) 1)
  | condWait (x : Search) : Locking (.condWait x) (.lockDir x)
  | relock (x : Search) (child : Except ℤ InodeId) :
      Locking (.lookupRelock x child) (.unlockDir x child)
  | release (c : ReleaseCaller) (i : InodeId) :
      Locking (.releaseRef c (some i)) (.releaseCheck c i)
  | mount (m : Mount) : Locking (.mountLock m) (.mountDo m)
  | mountRoot (fsDriverName : Str) : Locking (.mountRootLock fsDriverName) (.mountRootDo fsDriverName)

/-- What a call of `vfs_do_mount` has come to. -/
inductive DoMount {T : Type} (s : State T) (fsDriverName : Str) (r : DriverResults) :
    ℤ → Option InodeId → State T → Prop
  | success {inst : InstanceId} (hroot : s.rootInstance = none) (hdriver : fsDriverName ∈ s.driverList)
      (hinst : r.createInstance = (0, some inst)) (hrc : r.getRoot.1 = 0) :
      DoMount s fsDriverName r 0 r.getRoot.2 { s with instList := s.instList ++ [inst] }
  | failure {rc : ℤ} {closed : List InstanceId} (hrc : rc ≠ 0) :
      DoMount s fsDriverName r rc none { s with closed }

variable {T : Type} [DecidableEq T]

namespace State

variable (s : State T)

/-- The steps, with the states they lead to. -/
inductive Transition : Event T → State T → Prop
  | call {e : Event T} {t : T} {p : Pc} (hpc : s.pc t = .idle) (hentry : Entry e t p) :
      Transition e (s.goto t p)
  | releaseCall {t : T} {inode : Option InodeId} (hpc : s.pc t = .idle) :
      Transition (.releaseRef t inode)
        { s.goto t (.releaseRef .direct inode) with
          live := match inode with
            | none => s.live
            | some i => s.live.erase i }
  | register {t : T} {name : Str} (hpc : s.pc t = .idle) :
      Transition (.registerFsDriver t name)
        { s with driverList := name :: s.driverList, driverListMutex := none }
  | lock {t : T} {p q : Pc} (hpc : s.pc t = p) (hlock : Locking p q) (hawake : ¬s.Asleep t)
      (hfree : s.fsMutex = none) :
      Transition (.resume t) { s.goto t q with fsMutex := some t }
  | lockAgain {t : T} {c : RootCaller} {dir : Except ℤ InodeId}
      (hpc : s.pc t = .getRootDirDone c dir) (hfree : s.fsMutex = none) :
      Transition (.resume t) (returnGetRootDir { s with fsMutex := some t } t c dir)
  | getRootDir {t : T} {c : RootCaller} (hpc : s.pc t = .getRootDir c) :
      Transition (.resume t) (s.vfsGetRootDir t c)
  | pathTooLong {t : T} {l : Lookup} (hpc : s.pc t = .lookupInode l)
      (hlen : vfsPathlenMax < l.path.length) :
      Transition (.resume t) (s.returnLookup t l (.error einval))
  | lookupInode {t : T} {l : Lookup} (hpc : s.pc t = .lookupInode l)
      (hrel : l.path.head? ≠ some slash) (hlen : l.path.length ≤ vfsPathlenMax) :
      Transition (.resume t) (s.goto t (.lookupLock l))
  | adjusted {t : T} {c : AdjustCaller} {delta : ℤ} (hpc : s.pc t = .adjustRefcounts c none delta) :
      Transition (.resume t) (s.adjusted t c)
  | adjust {t : T} {c : AdjustCaller} {i : InodeId} {delta : ℤ}
      (hpc : s.pc t = .adjustRefcounts c (some i) delta) :
      Transition (.resume t)
        ((s.setRefcount i (s.refcount i + delta)).goto t (.adjustRefcounts c (s.parent i) delta))
  | found {t : T} {l : Lookup} {i : InodeId} (hpc : s.pc t = .lookupLoop l i []) :
      Transition (.resume t) (s.goto t (.lookupUnlock l (.ok i)))
  | badName {t : T} {l : Lookup} {i : InodeId} {path : Str} {rc : ℤ}
      (hpc : s.pc t = .lookupLoop l i path) (hpath : path ≠ [])
      (hname : vfsGetNextPathElement path = .ok (.error rc)) :
      Transition (.resume t) (s.lookupFailed t l i rc)
  | notDir {t : T} {l : Lookup} {i : InodeId} {path name rest : Str}
      (hpc : s.pc t = .lookupLoop l i path) (hpath : path ≠ [])
      (hname : vfsGetNextPathElement path = .ok (.ok (name, rest))) (htype : s.type i ≠ .dir) :
      Transition (.resume t) (s.lookupFailed t l i enotdir)
  | nextName {t : T} {l : Lookup} {i : InodeId} {path name rest : Str}
      (hpc : s.pc t = .lookupLoop l i path) (hpath : path ≠ [])
      (hname : vfsGetNextPathElement path = .ok (.ok (name, rest))) (htype : s.type i = .dir) :
      Transition (.resume t)
        (s.goto t (.lockDir { lookup := l, dir := i, name, path := rest }))
  | wait {t : T} {x : Search} (hpc : s.pc t = .lockDir x) (hheld : s.fsMutex = some t)
      (hbusy : s.busy x.dir = true) :
      Transition (.resume t)
        { s.goto t (.condWait x) with
          fsMutex := none
          inodeCond := Function.update s.inodeCond x.dir (s.inodeCond x.dir ++ [t]) }
  | mark {t : T} {x : Search} (hpc : s.pc t = .lockDir x) (hbusy : s.busy x.dir = false) :
      Transition (.resume t)
        { s.goto t (.search x (s.childList x.dir).first) with
          busy := Function.update s.busy x.dir true }
  | miss {t : T} {x : Search} (hpc : s.pc t = .search x none) (hheld : s.fsMutex = some t) :
      Transition (.resume t) { s.goto t (.driverLookup x) with fsMutex := none }
  | hit {t : T} {x : Search} {i : InodeId} {dirName : Str} (hpc : s.pc t = .search x (some i))
      (hname : s.name x.dir = some dirName) (heq : strncmp x.name dirName vfsNamelenMax = 0) :
      Transition (.resume t) (s.goto t (.unlockDir x (.ok i)))
  | nextChild {t : T} {x : Search} {i : InodeId} {dirName : Str}
      (hpc : s.pc t = .search x (some i)) (hname : s.name x.dir = some dirName)
      (hne : strncmp x.name dirName vfsNamelenMax ≠ 0) :
      Transition (.resume t) (s.goto t (.search x (s.link i).next))
  | driverFound {t : T} {x : Search} {i : InodeId} (hpc : s.pc t = .driverLookup x) :
      Transition (.driverLookup t 0 (some i))
        { s.goto t (.lookupRelock x (.ok i)) with
          childList := Function.update s.childList x.dir
            (LinkedList.append (s.childList x.dir) s.link i).1
          link := (LinkedList.append (s.childList x.dir) s.link i).2 }
  | driverFailed {t : T} {x : Search} {rc : ℤ} {inode : Option InodeId}
      (hpc : s.pc t = .driverLookup x) (hrc : rc ≠ 0) :
      Transition (.driverLookup t rc inode) (s.goto t (.lookupRelock x (.error rc)))
  | unlockDirFailed {t : T} {x : Search} {rc : ℤ} (hpc : s.pc t = .unlockDir x (.error rc)) :
      Transition (.resume t)
        { s.lookupFailed t x.lookup x.dir rc with
          busy := Function.update s.busy x.dir false
          inodeCond := Function.update s.inodeCond x.dir [] }
  | unlockDir {t : T} {x : Search} {i : InodeId} (hpc : s.pc t = .unlockDir x (.ok i)) :
      Transition (.resume t)
        { (s.setRefcount i (s.refcount i + 1)).goto t (.lookupLoop x.lookup i x.path) with
          busy := Function.update s.busy x.dir false
          inodeCond := Function.update s.inodeCond x.dir [] }
  | lookupUnlock {t : T} {l : Lookup} {inode : Except ℤ InodeId}
      (hpc : s.pc t = .lookupUnlock l inode) (hheld : s.fsMutex = some t) :
      Transition (.resume t) (returnLookup { s with fsMutex := none } t l inode)
  | releaseNull {t : T} {c : ReleaseCaller} (hpc : s.pc t = .releaseRef c none) :
      Transition (.resume t) (s.returnRelease t c none)
  | releaseCheck {t : T} {c : ReleaseCaller} {i : InodeId} (hpc : s.pc t = .releaseCheck c i) :
      Transition (.resume t) (s.goto t (.adjustRefcounts (.release c i) (some i) (-1)))
  | releaseUnlock {t : T} {c : ReleaseCaller} {i : InodeId} (hpc : s.pc t = .releaseUnlock c i)
      (hheld : s.fsMutex = some t) :
      Transition (.resume t) (returnRelease { s with fsMutex := none } t c (some i))
  | mountCheck {t : T} {m : Mount} (hpc : s.pc t = .mountCheck m) :
      Transition (.resume t) (s.mountCheck t m)
  | mountDo {t : T} {m : Mount} {r : DriverResults} {rc : ℤ} {root : Option InodeId}
      {s' : State T} (hpc : s.pc t = .mountDo m) (hdo : DoMount s m.fsDriverName r rc root s') :
      Transition (.doMount t r)
        (s'.goto t (if rc = 0 then .mountStore m root else .mountUnlock m rc))
  | mountStore {t : T} {m : Mount} {root : InodeId} (hpc : s.pc t = .mountStore m (some root)) :
      Transition (.resume t)
        { s.goto t (.adjustRefcounts (.mounted m) (some m.mountpoint) 1) with
          mount := Function.update s.mount m.mountpoint (some root)
          parent := Function.update s.parent root (s.parent m.mountpoint) }
  | mountUnlock {t : T} {m : Mount} {rc : ℤ} (hpc : s.pc t = .mountUnlock m rc)
      (hheld : s.fsMutex = some t) :
      Transition (.resume t)
        { s.goto t (.releaseRef (.mountpoint m.rootDir rc) m.mountpoint) with fsMutex := none }
  | mountRootDo {t : T} {fsDriverName : Str} {r : DriverResults} {rc : ℤ} {root : Option InodeId}
      {s' : State T} (hpc : s.pc t = .mountRootDo fsDriverName)
      (hdo : DoMount s fsDriverName r rc root s') :
      Transition (.doMount t r)
        ({ s' with rootDir := if rc = 0 then root else s'.rootDir }.goto t (.mountRootUnlock rc))
  | mountRootUnlock {t : T} {rc : ℤ} (hpc : s.pc t = .mountRootUnlock rc)
      (hheld : s.fsMutex = some t) :
      Transition (.resume t)
        ({ s.goto t .idle with fsMutex := none }.record (.mountRoot t rc))

variable {s} {s' : State T} {e : Event T} {t : T}

theorem mutexLock_eq_ok :
    s.mutexLock t = .ok s' ↔ s.fsMutex ≠ some t ∧ s' = { s with fsMutex := some t } := by
  simp only [mutexLock, bind_eq_ok, Threads.lock_eq_ok, pure_eq_ok]
  constructor
  · rintro ⟨owner, ⟨hne, rfl⟩, rfl⟩
    exact ⟨hne, rfl⟩
  · rintro ⟨hne, rfl⟩
    exact ⟨_, ⟨hne, rfl⟩, rfl⟩

/-- The thread that has locked the mutex must not lock it again. -/
theorem mutexLock_held (h : s.fsMutex = some t) : s.mutexLock t = .error .mutexHeld := by
  have hreq : require (s.fsMutex ≠ some t) Fault.mutexHeld = .error .mutexHeld :=
    require_eq_error.mpr ⟨not_not.mpr h, rfl⟩
  rw [mutexLock, Threads.lock, hreq]
  rfl

theorem mutexUnlock_eq_ok :
    s.mutexUnlock t = .ok s' ↔ s.fsMutex = some t ∧ s' = { s with fsMutex := none } := by
  simp only [mutexUnlock, bind_eq_ok, Threads.unlock_eq_ok, pure_eq_ok]
  constructor
  · rintro ⟨owner, ⟨heq, rfl⟩, rfl⟩
    exact ⟨heq, rfl⟩
  · rintro ⟨heq, rfl⟩
    exact ⟨_, ⟨heq, rfl⟩, rfl⟩

/-- `mutex_unlock` in front of the rest of a section. -/
theorem of_mutexUnlock {g : State T → State T}
    (h : (do let s ← s.mutexUnlock t; pure (g s)) = Except.ok s') :
    s.fsMutex = some t ∧ s' = g { s with fsMutex := none } := by
  obtain ⟨s₁, hs₁, h⟩ := bind_eq_ok.mp h
  obtain ⟨hheld, rfl⟩ := mutexUnlock_eq_ok.mp hs₁
  exact ⟨hheld, (pure_eq_ok.mp h).symm⟩

/-- A thread whose next statement locks the mutex, and does not fail there, finds it free. -/
theorem free_of_mutexLock (hready : Threads.Ready t s.fsMutex) (h : s.mutexLock t = .ok s') :
    s.fsMutex = none ∧ s' = { s with fsMutex := some t } := by
  obtain ⟨hne, hs'⟩ := mutexLock_eq_ok.mp h
  rcases hready with hnone | hsome
  · exact ⟨hnone, hs'⟩
  · exact absurd hsome hne

/-- A section that locks the mutex and goes on. -/
theorem transition_lock {p q : Pc} (hlock : Locking p q) (hpc : s.pc t = p)
    (hen : s.Enabled (.resume t))
    (h : (do let s ← s.mutexLock t; pure (s.goto t q)) = Except.ok s') :
    s.Transition (.resume t) s' := by
  obtain ⟨s₁, hs₁, h⟩ := bind_eq_ok.mp h
  obtain rfl := pure_eq_ok.mp h
  have hlocks : (s.pc t).locks = true := by
    rw [hpc]
    cases hlock <;> rfl
  obtain ⟨hfree, rfl⟩ := free_of_mutexLock (hen.2.2.2 hlocks) hs₁
  exact .lock hpc hlock hen.2.2.1 hfree

/-- `vfs_find_fs_driver` finds what is on the list. -/
theorem vfsFindFsDriver_eq {name : Str} (hfree : s.driverListMutex ≠ some t) :
    s.vfsFindFsDriver t name =
      .ok (if name ∈ s.driverList then .ok name else .error einval) := by
  have hlock : Threads.lock Fault.mutexHeld t s.driverListMutex = .ok (some t) :=
    Threads.lock_eq_ok.mpr ⟨hfree, rfl⟩
  rw [vfsFindFsDriver, hlock, ok_bind, Threads.unlock_some, ok_bind]
  by_cases hname : name ∈ s.driverList
  · rw [if_pos hname]
    have hsome : (s.driverList.find? fun driver => strcmp name driver = 0) = some name := by
      cases hfind : s.driverList.find? fun driver => strcmp name driver = 0 with
      | none =>
        have hnot := List.find?_eq_none.mp hfind name hname
        simp [strcmp_eq_zero] at hnot
      | some driver =>
        have hd := List.find?_some hfind
        rw [strcmp_eq_zero.mp (of_decide_eq_true hd)]
    rw [hsome]
    rfl
  · -- no driver on the list compares equal to a name that is not on it
    rw [if_neg hname]
    have hnone : (s.driverList.find? fun driver => strcmp name driver = 0) = none := by
      rw [List.find?_eq_none]
      intro driver hdriver heq
      exact hname (strcmp_eq_zero.mp (of_decide_eq_true heq) ▸ hdriver)
    rw [hnone]
    rfl

theorem vfsFindFsDriver_ok {name : Str} {found : Except ℤ Str}
    (h : s.vfsFindFsDriver t name = .ok found) :
    found = if name ∈ s.driverList then .ok name else .error einval := by
  obtain ⟨owner, hlock, -⟩ := bind_eq_ok.mp h
  rw [vfsFindFsDriver_eq (Threads.lock_eq_ok.mp hlock).1] at h
  exact (Except.ok.inj h).symm

/-- What `vfs_do_mount` returns. -/
theorem doMount_of_vfsDoMount {name : Str} {r : DriverResults} {rc : ℤ} {root : Option InodeId}
    (h : s.vfsDoMount t name none r = .ok (rc, root, s')) : DoMount s name r rc root s' := by
  -- all paths to the label `fail` end in the same way
  have hfailed : ∀ {rc' : ℤ} {inst : Option InstanceId} {dir : Option InodeId}, rc' ≠ 0 →
      s.doMountFailed rc' inst dir = .ok (rc, root, s') → DoMount s name r rc root s' := by
    intro rc' inst dir hrc' hfail
    obtain ⟨_, -, heq⟩ := bind_eq_ok.mp hfail
    cases inst <;> cases heq <;> exact .failure hrc'
  obtain ⟨_, -, h⟩ := bind_eq_ok.mp h
  obtain ⟨_, -, h⟩ := bind_eq_ok.mp h
  split at h
  · -- a second root: `EEXIST`
    exact hfailed (by decide) h
  next hroot =>
    obtain ⟨found, hfind, h⟩ := bind_eq_ok.mp h
    have hfound := vfsFindFsDriver_ok hfind
    by_cases hdriver : name ∈ s.driverList
    · rw [if_pos hdriver] at hfound
      subst hfound
      simp only at h
      split at h
      next hrc => exact hfailed hrc h
      next hrc =>
        split at h
        · simp at h
        next inst hinst =>
          split at h
          next hroot' => exact hfailed hroot' h
          next hroot' =>
            cases h
            have hzero : r.getRoot.1 = 0 := Decidable.not_not.mp hroot'
            refine .success (by simpa using hroot) hdriver ?_ hzero
            exact Prod.ext (Decidable.not_not.mp hrc) hinst
    · rw [if_neg hdriver] at hfound
      subst hfound
      -- no driver of the name: `EINVAL`
      exact hfailed (by decide) h

/-- The tests of the mount point in `vfs_mount`, one by one. -/
theorem mountCheck_cases (s : State T) (t : T) (m : Mount) :
    (s.type m.mountpoint ≠ .dir ∧ s.mountCheck t m =
      s.goto t (.releaseRef (.mountpoint m.rootDir enotdir) m.mountpoint)) ∨
    (s.type m.mountpoint = .dir ∧ s.mount m.mountpoint ≠ none ∧ s.mountCheck t m =
      s.goto t (.releaseRef (.mountpoint m.rootDir eexist) m.mountpoint)) ∨
    (s.type m.mountpoint = .dir ∧ s.mount m.mountpoint = none ∧
      s.mountCheck t m = s.goto t (.mountLock m)) := by
  unfold mountCheck
  by_cases htype : s.type m.mountpoint = .dir
  · by_cases hmount : s.mount m.mountpoint = none
    · simp [htype, hmount]
    · simp [htype, hmount]
  · simp [htype]

/-- A section of a thread is one of the transitions. -/
theorem transition_of_resume (hen : s.Enabled (.resume t)) (h : s.resume t = .ok s') :
    s.Transition (.resume t) s' := by
  unfold resume at h
  split at h
  next c hpc =>
    exact transition_lock (.getRootDir c) hpc hen h
  next c hpc =>
    obtain rfl := Except.ok.inj h
    exact .getRootDir hpc
  next c dir hpc =>
    obtain ⟨s₁, hs₁, heq⟩ := bind_eq_ok.mp h
    -- `vfs_get_root_dir` locks where it should unlock
    obtain ⟨hfree, rfl⟩ := free_of_mutexLock (hen.2.2.2 (by rw [hpc]; rfl)) hs₁
    obtain rfl := Except.ok.inj heq
    exact .lockAgain hpc hfree
  next l hpc =>
    obtain ⟨_, hrel, h⟩ := bind_eq_ok.mp h
    obtain ⟨_, -, h⟩ := bind_eq_ok.mp h
    have hrel := require_eq_ok.mp hrel
    split at h
    next hlen =>
      obtain rfl := Except.ok.inj h
      exact .pathTooLong hpc (by simp only [strnlen] at hlen; omega)
    next hlen =>
      obtain rfl := Except.ok.inj h
      exact .lookupInode hpc hrel (by simp only [strnlen] at hlen; omega)
  next l hpc =>
    exact transition_lock (.lookup l) hpc hen h
  next c inode delta hpc =>
    obtain ⟨_, -, h⟩ := bind_eq_ok.mp h
    cases inode with
    | none =>
      obtain rfl := Except.ok.inj h
      exact .adjusted hpc
    | some i =>
      obtain ⟨_, -, h⟩ := bind_eq_ok.mp h
      obtain ⟨_, -, h⟩ := bind_eq_ok.mp h
      obtain rfl := Except.ok.inj h
      exact .adjust hpc
  next l i path hpc =>
    unfold lookupLoop at h
    -- the loop condition of `vfs_lookup_inode`
    by_cases hpath : path = []
    · subst hpath
      rw [if_neg (by decide)] at h
      obtain ⟨_, -, h⟩ := bind_eq_ok.mp h
      obtain rfl := Except.ok.inj h
      exact .found hpc
    · have hmore : vfsHasMorePathElements path = true := by simp [vfsHasMorePathElements, hpath]
      rw [if_pos hmore] at h
      obtain ⟨res, hname, h⟩ := bind_eq_ok.mp h
      cases res with
      | error rc =>
        obtain rfl := Except.ok.inj h
        exact .badName hpc hpath hname
      | ok res =>
        obtain ⟨name, rest⟩ := res
        simp only at h
        split at h
        next htype =>
          obtain rfl := Except.ok.inj h
          exact .notDir hpc hpath hname htype
        next htype =>
          obtain rfl := Except.ok.inj h
          exact .nextName hpc hpath hname (Decidable.not_not.mp htype)
  next x hpc =>
    obtain ⟨_, hheld, h⟩ := bind_eq_ok.mp h
    have hheld := require_eq_ok.mp hheld
    split at h
    next hbusy =>
      obtain ⟨-, rfl⟩ := of_mutexUnlock h
      exact .wait hpc hheld hbusy
    next hbusy =>
      obtain ⟨_, -, h⟩ := bind_eq_ok.mp h
      obtain rfl := Except.ok.inj h
      exact .mark hpc (by simpa using hbusy)
  next x hpc =>
    exact transition_lock (.condWait x) hpc hen h
  next x child hpc =>
    cases child with
    | none =>
      obtain ⟨hheld, rfl⟩ := of_mutexUnlock h
      exact .miss hpc hheld
    | some i =>
      simp only [vfsLookupChild] at h
      split at h
      · simp at h
      next dirName hname =>
        split at h
        next heq =>
          obtain rfl := Except.ok.inj h
          exact .hit hpc hname heq
        next hne =>
          obtain rfl := Except.ok.inj h
          exact .nextChild hpc hname hne
  next x child hpc =>
    exact transition_lock (.relock x child) hpc hen h
  next x child hpc =>
    obtain ⟨_, -, h⟩ := bind_eq_ok.mp h
    obtain ⟨_, -, h⟩ := bind_eq_ok.mp h
    cases child with
    | error rc =>
      obtain rfl := Except.ok.inj h
      exact .unlockDirFailed hpc
    | ok i =>
      obtain rfl := Except.ok.inj h
      exact .unlockDir hpc
  next l inode hpc =>
    obtain ⟨hheld, rfl⟩ := of_mutexUnlock h
    exact .lookupUnlock hpc hheld
  next c hpc =>
    obtain rfl := Except.ok.inj h
    exact .releaseNull hpc
  next c i hpc =>
    exact transition_lock (.release c i) hpc hen h
  next c i hpc =>
    obtain ⟨_, -, h⟩ := bind_eq_ok.mp h
    obtain rfl := Except.ok.inj h
    exact .releaseCheck hpc
  next c i hpc =>
    obtain ⟨hheld, rfl⟩ := of_mutexUnlock h
    exact .releaseUnlock hpc hheld
  next m hpc =>
    obtain rfl := Except.ok.inj h
    exact .mountCheck hpc
  next m hpc =>
    exact transition_lock (.mount m) hpc hen h
  next m root hpc =>
    cases root with
    | none => cases h
    | some root =>
      obtain rfl := Except.ok.inj h
      exact .mountStore hpc
  next m rc hpc =>
    obtain ⟨hheld, rfl⟩ := of_mutexUnlock h
    exact .mountUnlock hpc hheld
  next name hpc =>
    exact transition_lock (.mountRoot name) hpc hen h
  next rc hpc =>
    obtain ⟨hheld, rfl⟩ := of_mutexUnlock h
    exact .mountRootUnlock hpc hheld
  next hpc => exact absurd hpc hen.1
  next x hpc =>
    have hin := hen.2.1
    rw [hpc] at hin
    cases hin
  next m hpc =>
    have hin := hen.2.1
    rw [hpc] at hin
    cases hin
  next name hpc =>
    have hin := hen.2.1
    rw [hpc] at hin
    cases hin

/-- A step is one of the transitions. -/
theorem Step.transition (h : Step s e s') : s.Transition e s' := by
  obtain ⟨hen, hexec⟩ := h
  cases e with
  | mountRoot t name =>
    obtain rfl := Except.ok.inj hexec
    exact .call hen (.mountRoot t name)
  | mount t path name =>
    obtain rfl := Except.ok.inj hexec
    exact .call hen (.mount t path name)
  | getRootDir t =>
    obtain rfl := Except.ok.inj hexec
    exact .call hen (.getRootDir t)
  | lookupInode t startDir path =>
    obtain rfl := Except.ok.inj hexec
    exact .call hen (.lookupInode t startDir path)
  | releaseRef t inode =>
    obtain rfl := Except.ok.inj hexec
    exact .releaseCall hen
  | registerFsDriver t name =>
    obtain ⟨owner, hlock, hexec⟩ := bind_eq_ok.mp hexec
    obtain ⟨owner', hunlock, hexec⟩ := bind_eq_ok.mp hexec
    obtain ⟨-, rfl⟩ := Threads.unlock_eq_ok.mp hunlock
    obtain rfl := Except.ok.inj hexec
    exact .register hen
  | resume t => exact transition_of_resume hen hexec
  | driverLookup t rc inode =>
    simp only [exec] at hexec
    split at hexec
    next x hpc =>
      unfold driverLookupReturns at hexec
      split at hexec
      next hrc =>
        subst hrc
        cases inode with
        | none => simp at hexec
        | some i =>
          obtain rfl := Except.ok.inj hexec
          exact .driverFound hpc
      next hrc =>
        obtain rfl := Except.ok.inj hexec
        exact .driverFailed hpc hrc
    next hnot =>
      -- no driver was asked
      simp only [Enabled, InLookup] at hen
  | doMount t r =>
    simp only [exec] at hexec
    split at hexec
    next m hpc =>
      obtain ⟨⟨rc, root, s₁⟩, hdo, hexec⟩ := bind_eq_ok.mp hexec
      have hs' : s' = s₁.goto t (if rc = 0 then .mountStore m root else .mountUnlock m rc) := by
        simp only at hexec
        split at hexec
        next hrc =>
          rw [if_pos hrc]
          exact (Except.ok.inj hexec).symm
        next hrc =>
          rw [if_neg hrc]
          exact (Except.ok.inj hexec).symm
      rw [hs']
      exact .mountDo hpc (doMount_of_vfsDoMount hdo)
    next name hpc =>
      obtain ⟨⟨rc, root, s₁⟩, hdo, hexec⟩ := bind_eq_ok.mp hexec
      have hs' : s' = { s₁ with rootDir := if rc = 0 then root else s₁.rootDir }.goto t
          (.mountRootUnlock rc) := by
        rw [← Except.ok.inj hexec]
        by_cases hrc : rc = 0
        · simp only [hrc, if_true]
        · simp only [hrc, if_false]
      rw [hs']
      exact .mountRootDo hpc (doMount_of_vfsDoMount hdo)
    next hnot hnot' =>
      simp only [Enabled, AtDoMount] at hen

/-! ## What fails -/

/-- An event that cannot be carried out, with the fault: where it is one of a mutex or of
`vfs_adjust_refcounts`, what was wrong with the state. -/
inductive Fails (s : State T) : Event T → Fault → Prop
  | lock {t : T} (hlocks : (s.pc t).locks = true) (hheld : s.fsMutex = some t) :
      Fails s (.resume t) .mutexHeld
  | notHeld {e : Event T} (hholds : (s.pc e.thread).holds = true)
      (hmutex : s.fsMutex ≠ some e.thread) : Fails s e .mutexNotHeld
  | driverList {e : Event T} (hheld : s.driverListMutex = some e.thread) : Fails s e .mutexHeld
  | adjust {t : T} {c : AdjustCaller} {i : InodeId} {delta : ℤ}
      (hpc : s.pc t = .adjustRefcounts c (some i) delta)
      (hneg : s.refcount i < 0 ∨ delta ≤ 0 ∧ s.refcount i ≤ 0) :
      Fails s (.resume t) .adjustRefcounts
  | other {e : Event T} {f : Fault} (hm : f.ofMutex = false) (ha : f ≠ .adjustRefcounts) : Fails s e f

variable {f : Fault}

omit [DecidableEq T] in
/-- An assertion on something else, in front of the rest of a section. -/
theorem fails_of_require {P : Prop} [Decidable P] {f' : Fault} {α : Type} {x : Except Fault α}
    (hm : f'.ofMutex = false) (ha : f' ≠ .adjustRefcounts)
    (h : (do require P f'; x) = .error f) (hx : x = .error f → s.Fails e f) : s.Fails e f := by
  rcases bind_eq_error.mp h with h | ⟨_, -, h⟩
  · obtain ⟨-, rfl⟩ := require_eq_error.mp h
    exact .other hm ha
  · exact hx h

/-- `MUTEX_IS_HELD` in front of the rest of a section. -/
theorem fails_of_held {α : Type} {x : Except Fault α}
    (hp : (s.pc e.thread).holds = true)
    (h : (do require (s.fsMutex = some e.thread) Fault.mutexNotHeld; x) = .error f)
    (hx : x = .error f → s.Fails e f) : s.Fails e f := by
  rcases bind_eq_error.mp h with h | ⟨_, -, h⟩
  · obtain ⟨hmutex, rfl⟩ := require_eq_error.mp h
    exact .notHeld hp hmutex
  · exact hx h

/-- `mutex_lock` in front of the rest of a section, which does not fail. -/
theorem fails_of_mutexLock {g : State T → State T} (hp : (s.pc t).locks = true)
    (h : (do let s ← s.mutexLock t; pure (g s)) = Except.error f) : s.Fails (.resume t) f := by
  rcases bind_eq_error.mp h with h | ⟨_, -, h⟩
  · rcases bind_eq_error.mp h with h | ⟨_, -, h⟩
    · rcases bind_eq_error.mp h with h | ⟨_, -, h⟩
      · obtain ⟨hheld, rfl⟩ := require_eq_error.mp h
        exact .lock hp (not_not.mp hheld)
      · cases h
    · cases h
  · cases h

/-- `mutex_unlock` in front of the rest of a section, which does not fail. -/
theorem fails_of_mutexUnlock {g : State T → State T} (hp : (s.pc t).holds = true)
    (h : (do let s ← s.mutexUnlock t; pure (g s)) = Except.error f) : s.Fails (.resume t) f := by
  rcases bind_eq_error.mp h with h | ⟨_, -, h⟩
  · rcases bind_eq_error.mp h with h | ⟨_, -, h⟩
    · rcases bind_eq_error.mp h with h | ⟨_, -, h⟩
      · obtain ⟨hheld, rfl⟩ := require_eq_error.mp h
        exact .notHeld hp hheld
      · cases h
    · cases h
  · cases h

omit [DecidableEq T] in
theorem fails_of_doMountFailed {rc : ℤ} {inst : Option InstanceId} {rootDir : Option InodeId}
    {s₁ : State T} (h : s₁.doMountFailed rc inst rootDir = .error f) : s.Fails e f := by
  refine fails_of_require rfl (by simp) h fun h => ?_
  cases inst <;> cases h

/-- `vfs_do_mount`. -/
theorem fails_of_vfsDoMount {name : Str} {r : DriverResults} (hp : (s.pc e.thread).holds = true)
    (h : s.vfsDoMount e.thread name none r = .error f) : s.Fails e f := by
  refine fails_of_held hp h fun h => fails_of_require rfl (by simp) h fun h => ?_
  split at h
  · exact fails_of_doMountFailed h
  · rcases bind_eq_error.mp h with h | ⟨found, -, h⟩
    · -- `vfs_find_fs_driver` fails only where the thread has the mutex of the list already
      by_cases hfree : s.driverListMutex = some e.thread
      · rcases bind_eq_error.mp h with h | ⟨owner, hlock, h⟩
        · rcases bind_eq_error.mp h with h | ⟨_, -, h⟩
          · obtain ⟨-, rfl⟩ := require_eq_error.mp h
            exact .driverList hfree
          · cases h
        · exact absurd hfree (Threads.lock_eq_ok.mp hlock).1
      · rw [vfsFindFsDriver_eq hfree] at h
        cases h
    · cases found with
      | error rc => exact fails_of_doMountFailed h
      | ok driver =>
        simp only at h
        split at h
        · exact fails_of_doMountFailed h
        · split at h
          · rw [← throw_eq_error.mp h]
            exact .other rfl (by simp)
          · split at h
            · exact fails_of_doMountFailed h
            · cases h

omit [DecidableEq T] in
theorem fails_of_vfsGetNextPathElement {path : Str} (h : vfsGetNextPathElement path = .error f) :
    s.Fails e f := by
  refine fails_of_require rfl (by simp) h fun h => ?_
  simp only at h
  split at h <;> cases h

/-- A section of a thread. -/
theorem fails_of_resume (h : s.resume t = .error f) : s.Fails (.resume t) f := by
  unfold resume at h
  split at h
  next c hpc => exact fails_of_mutexLock (by rw [hpc]; rfl) h
  next c hpc => cases h
  next c dir hpc => exact fails_of_mutexLock (by rw [hpc]; rfl) h
  next l hpc =>
    refine fails_of_require rfl (by simp) h fun h => fails_of_require rfl (by simp) h fun h => ?_
    split at h <;> cases h
  next l hpc => exact fails_of_mutexLock (by rw [hpc]; rfl) h
  next c inode delta hpc =>
    -- under the mutex: the reference count of an inode must not be negative
    refine fails_of_held (by rw [Event.thread, hpc]; rfl) h fun h => ?_
    cases inode with
    | none => cases h
    | some i =>
      rcases bind_eq_error.mp h with h | ⟨_, -, h⟩
      · obtain ⟨hneg, rfl⟩ := require_eq_error.mp h
        exact .adjust hpc (.inl (by omega))
      · rcases bind_eq_error.mp h with h | ⟨_, -, h⟩
        · obtain ⟨hneg, rfl⟩ := require_eq_error.mp h
          exact .adjust hpc (.inr (by omega))
        · cases h
  next l i path hpc =>
    unfold lookupLoop at h
    by_cases hmore : vfsHasMorePathElements path = true
    · rw [if_pos hmore] at h
      rcases bind_eq_error.mp h with h | ⟨res, -, h⟩
      · exact fails_of_vfsGetNextPathElement h
      · cases res with
        | error rc => cases h
        | ok res =>
          simp only at h
          split at h <;> cases h
    · rw [if_neg hmore] at h
      exact fails_of_require rfl (by simp) h fun h => by cases h
  next x hpc =>
    refine fails_of_held (by rw [Event.thread, hpc]; rfl) h fun h => ?_
    split at h
    · exact fails_of_mutexUnlock (by rw [hpc]; rfl) h
    · exact fails_of_require rfl (by simp) h fun h => by cases h
  next x hpc => exact fails_of_mutexLock (by rw [hpc]; rfl) h
  next x child hpc =>
    cases child with
    | none => exact fails_of_mutexUnlock (by rw [hpc]; rfl) h
    | some i =>
      simp only [vfsLookupChild] at h
      split at h
      · rw [← throw_eq_error.mp h]
        exact .other rfl (by simp)
      · split at h <;> cases h
  next x child hpc => exact fails_of_mutexLock (by rw [hpc]; rfl) h
  next x child hpc =>
    refine fails_of_held (by rw [Event.thread, hpc]; rfl) h fun h =>
      fails_of_require rfl (by simp) h fun h => ?_
    cases child <;> cases h
  next l inode hpc => exact fails_of_mutexUnlock (by rw [hpc]; rfl) h
  next c hpc => cases h
  next c i hpc => exact fails_of_mutexLock (by rw [hpc]; rfl) h
  next c i hpc => exact fails_of_require rfl (by simp) h fun h => by cases h
  next c i hpc => exact fails_of_mutexUnlock (by rw [hpc]; rfl) h
  next m hpc => cases h
  next m hpc => exact fails_of_mutexLock (by rw [hpc]; rfl) h
  next m root hpc =>
    cases root with
    | none =>
      rw [← throw_eq_error.mp h]
      exact .other rfl (by simp)
    | some root => cases h
  next m rc hpc => exact fails_of_mutexUnlock (by rw [hpc]; rfl) h
  next name hpc => exact fails_of_mutexLock (by rw [hpc]; rfl) h
  next rc hpc => exact fails_of_mutexUnlock (by rw [hpc]; rfl) h
  all_goals cases h

/-- An event that cannot be carried out. -/
theorem fails_of_exec (h : s.exec e = .error f) : s.Fails e f := by
  cases e with
  | resume t => exact fails_of_resume h
  | driverLookup t rc inode =>
    simp only [exec] at h
    split at h
    · unfold driverLookupReturns at h
      split at h
      · cases inode with
        | none =>
          rw [← throw_eq_error.mp h]
          exact .other rfl (by simp)
        | some i => cases h
      · cases h
    · cases h
  | doMount t r =>
    simp only [exec] at h
    split at h
    next m hpc =>
      rcases bind_eq_error.mp h with h | ⟨⟨rc, root, s₁⟩, -, h⟩
      · exact fails_of_vfsDoMount (by rw [Event.thread, hpc]; rfl) h
      · simp only at h
        split at h <;> cases h
    next name hpc =>
      rcases bind_eq_error.mp h with h | ⟨⟨rc, root, s₁⟩, -, h⟩
      · exact fails_of_vfsDoMount (by rw [Event.thread, hpc]; rfl) h
      · cases h
    · cases h
  | registerFsDriver t name =>
    rcases bind_eq_error.mp h with h | ⟨owner, hlock, h⟩
    · rcases bind_eq_error.mp h with h | ⟨_, -, h⟩
      · obtain ⟨hheld, rfl⟩ := require_eq_error.mp h
        exact .driverList (not_not.mp hheld)
      · cases h
    · obtain ⟨-, rfl⟩ := Threads.lock_eq_ok.mp hlock
      simp only [Threads.unlock_some, ok_bind] at h
      cases h
  | _ => cases h

end State

end GeekOS.Vfs
