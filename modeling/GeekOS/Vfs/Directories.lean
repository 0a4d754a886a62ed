import GeekOS.Vfs.Mutex

/-!
# One lookup at a time in a directory

The rules at the top of `vfs.c` protect a directory twice: by `s_fs_mutex` while the tree is
navigated, and by the busy mark while the mutex is released for the driver. A lookup hands the
protection over from the one to the other and back.

* `Accesses`: a step reads the child list of a directory, asks the driver about it, or appends to
  the list;
* `Guarded`: the invariant, the mutex and the marks of `Locked` with a fact about sleepers:
  whoever sleeps on the condition of a directory sleeps while it is busy;
* `directories_exclusive`: in every run, every access to a directory is made by the one thread that
  has it marked, and no thread sleeps on while the mutex is free and the directory is not busy.
-/

namespace GeekOS.Vfs

open Result TransitionSystem

variable {T : Type}

/-- `vfs_do_mount` has nothing to do with directories. -/
theorem DoMount.directories {s s' : State T} {name : Str} {r : DriverResults} {rc : ℤ}
    {root : Option InodeId} (h : DoMount s name r rc root s') :
    s'.busy = s.busy ∧ s'.inodeCond = s.inodeCond ∧ s'.childList = s.childList := by
  cases h <;> exact ⟨rfl, rfl, rfl⟩

namespace State

/-- No thread is in a function of `vfs.c`, no mutex is locked, no directory is busy, and nobody
sleeps. The tree may be any. -/
structure Quiet (s : State T) : Prop where
  idle : ∀ t, s.pc t = .idle
  fsMutex : s.fsMutex = none
  driverList : s.driverListMutex = none
  busy : ∀ d, s.busy d = false
  inodeCond : ∀ d, s.inodeCond d = []

/-- The step reads the child list of the directory, is the driver's `lookup` in it, or appends to
the list. Where `vfs_lock_dir` ends, `vfs_lookup_child` reads the head of the list. -/
def Accesses (s : State T) (e : Event T) (d : InodeId) : Prop :=
  match s.pc e.thread with
  | .search x _ | .driverLookup x => x.dir = d
  | .lockDir x => x.dir = d ∧ s.busy d = false
  | _ => False

/-- At most one thread is between `vfs_lock_dir` and `vfs_unlock_dir` of a directory, and while the
mutex is free nobody sleeps on the condition of a directory that is not busy. -/
structure DirectoriesSafe (s : State T) : Prop where
  alone : ∀ t u d, (s.pc t).marked = some d → (s.pc u).marked = some d → t = u
  awake : ∀ d, s.fsMutex = none → s.busy d = false → s.inodeCond d = []

variable [DecidableEq T]

/-- Nobody else is between `vfs_lock_dir` and `vfs_unlock_dir` of a directory that the step
accesses, and a child list is changed by the thread that has marked its directory. -/
structure AccessesAlone (s : State T) (e : Event T) : Prop where
  alone : ∀ d, s.Accesses e d → ∀ u, u ≠ e.thread → (s.pc u).marked ≠ some d
  changes : ∀ s' d, Step s e s' → s'.childList d ≠ s.childList d →
    s.Accesses e d ∧ (s.pc e.thread).marked = some d

/-- The mutex and the marks are in order, and the sleepers sleep while their directory is busy. -/
structure Guarded (s : State T) : Prop where
  locked : s.Locked
  asleep : ∀ d, s.busy d = false → s.inodeCond d = []

variable {s s' s₀ : State T} {e : Event T} {t : T}

/-- What a step does to the directories. A thread goes to sleep on a busy one, marks one, takes its
mark away and wakes the sleepers, or appends what the driver has found. -/
inductive DirectoryStep (s : State T) (t : T) (s' : State T) : Prop
  | other (hbusy : s'.busy = s.busy) (hcond : s'.inodeCond = s.inodeCond)
      (hlist : s'.childList = s.childList)
  | wait {x : Search} (hx : s.busy x.dir = true) (hbusy : s'.busy = s.busy)
      (hcond : s'.inodeCond = Function.update s.inodeCond x.dir (s.inodeCond x.dir ++ [t]))
      (hlist : s'.childList = s.childList)
  | mark {d : InodeId} (hbusy : s'.busy = Function.update s.busy d true)
      (hcond : s'.inodeCond = s.inodeCond) (hlist : s'.childList = s.childList)
  | unlock {d : InodeId} (hbusy : s'.busy = Function.update s.busy d false)
      (hcond : s'.inodeCond = Function.update s.inodeCond d []) (hlist : s'.childList = s.childList)
  | append {x : Search} (hpc : s.pc t = .driverLookup x) (hbusy : s'.busy = s.busy)
      (hcond : s'.inodeCond = s.inodeCond) (hlist : ∀ d ≠ x.dir, s'.childList d = s.childList d)

theorem Transition.directoryStep (ht : s.Transition e s') : s.DirectoryStep e.thread s' := by
  cases ht with
  | wait hpc hheld hbusy => exact .wait hbusy rfl rfl rfl
  | mark hpc hbusy => exact .mark rfl rfl rfl
  | unlockDirFailed hpc => exact .unlock rfl rfl rfl
  | unlockDir hpc => exact .unlock rfl rfl rfl
  | driverFound hpc => exact .append hpc rfl rfl fun d hd => Function.update_of_ne hd ..
  -- the mounts and the other returns concern no directory's mark, condition or list
  | mountDo hpc hdo | mountRootDo hpc hdo =>
    obtain ⟨hbusy, hcond, hlist⟩ := hdo.directories
    exact .other hbusy hcond hlist
  | lockAgain hpc hfree =>
    unfold returnGetRootDir
    split <;> exact .other rfl rfl rfl
  | getRootDir hpc =>
    unfold vfsGetRootDir
    split <;> exact .other rfl rfl rfl
  | pathTooLong hpc | lookupUnlock hpc =>
    unfold returnLookup
    split <;> exact .other rfl rfl rfl
  | adjusted hpc =>
    unfold State.adjusted
    split <;> exact .other rfl rfl rfl
  | releaseNull hpc | releaseUnlock hpc =>
    unfold returnRelease
    split <;> exact .other rfl rfl rfl
  | @mountCheck t m hpc =>
    rcases mountCheck_cases s t m with ⟨-, heq⟩ | ⟨-, -, heq⟩ | ⟨-, -, heq⟩ <;> rw [heq] <;>
      exact .other rfl rfl rfl
  | _ => exact .other rfl rfl rfl

omit [DecidableEq T] in
theorem Quiet.locked (h : s.Quiet) : s.Locked := by
  refine ⟨fun t => ?_, fun d => ?_, fun t u d ht => ?_, h.driverList⟩
  · simp [h.fsMutex, h.idle, Pc.holds]
  · simp [h.busy, h.idle, Pc.marked]
  · rw [h.idle] at ht
    cases ht

/-- Every step keeps the guards of the directories. -/
theorem Guarded.transition (h : s.Guarded) (ht : s.Transition e s') : s'.Guarded := by
  refine ⟨h.locked.transition ht, fun d hd => ?_⟩
  cases ht.directoryStep with
  | other hbusy hcond | append hpc hbusy hcond =>
    rw [hcond]
    exact h.asleep d (hbusy ▸ hd)
  | @wait x hx hbusy hcond =>
    -- the thread has gone to sleep because the directory is busy, so it is another one
    rw [hbusy] at hd
    have hne : d ≠ x.dir := by
      rintro rfl
      rw [hx] at hd
      cases hd
    rw [hcond, Function.update_of_ne hne]
    exact h.asleep d hd
  | @mark d' hbusy hcond =>
    have hne : d ≠ d' := by
      rintro rfl
      simp [hbusy] at hd
    rw [hcond]
    exact h.asleep d (by simpa [hbusy, hne] using hd)
  | @unlock d' hbusy hcond =>
    -- `cond_broadcast` has left nobody behind
    rcases eq_or_ne d d' with rfl | hne
    · rw [hcond, Function.update_self]
    · rw [hcond, Function.update_of_ne hne]
      exact h.asleep d (by simpa [hbusy, hne] using hd)

omit [DecidableEq T] in
theorem Guarded.directoriesSafe (h : s.Guarded) : s.DirectoriesSafe :=
  ⟨h.locked.unique, fun d _ hd => h.asleep d hd⟩

theorem Guarded.accessesAlone (h : s.Guarded) : s.AccessesAlone e := by
  refine ⟨fun d hacc u hne hu => ?_, fun s' d hs hd => ?_⟩
  · unfold Accesses at hacc
    split at hacc
    next x child hpc =>
      exact hne (h.locked.unique u _ d hu (by rw [hpc, ← hacc]; rfl))
    next x hpc =>
      exact hne (h.locked.unique u _ d hu (by rw [hpc, ← hacc]; rfl))
    next x hpc =>
      -- the directory is not busy, so nobody has it marked
      have hbusy := (h.locked.busy d).mpr ⟨u, hu⟩
      rw [hacc.2] at hbusy
      cases hbusy
    · exact hacc
  · cases hs.transition.directoryStep with
    | @append x hpc _ _ hlist =>
      -- only the append behind the driver's answer changes a child list, and only this one
      obtain rfl : d = x.dir := by
        by_contra hne
        exact hd (hlist d hne)
      exact ⟨by simp only [Accesses, hpc], by rw [hpc]; rfl⟩
    | other _ _ hlist | wait _ _ _ hlist | mark _ _ hlist | unlock _ _ hlist =>
      exact absurd (congrFun hlist d) hd

/-- In every run from a tree where nobody is at work, whatever the drivers answer: at most one
thread at a time is between `vfs_lock_dir` and `vfs_unlock_dir` of a directory, it alone accesses
the child list and asks the driver, and no thread is asleep on the condition of a directory that is
not busy while `s_fs_mutex` is free. -/
theorem directories_exclusive {tr : List (State T × Event T)} (hr : Run Step s₀ tr s)
    (h₀ : s₀.Quiet) :
    (∀ s' ∈ visited tr s, s'.DirectoriesSafe) ∧ ∀ p ∈ tr, p.1.AccessesAlone p.2 := by
  have hguarded : ∀ s', Reachable Step s₀ s' → s'.Guarded := fun s' hs' =>
    hs'.invariant ⟨h₀.locked, fun d _ => h₀.inodeCond d⟩ fun _ _ _ h hs => h.transition hs.transition
  exact ⟨fun s' hs' => (hguarded s' (hr.reachable_of_visited hs')).directoriesSafe,
    fun p hp => (hguarded p.1 (hr.step_of_mem hp).1).accessesAlone⟩

/-! ## Two lookups in one directory -/

/-- The root directory is mounted, and two threads hold a reference to it. -/
def sharedRoot : State (Fin 2) :=
  { initial with rootDir := some 0, refcount := Function.update (fun _ => 0) 0 2 }

attribute [local instance] neZero_two in
/-- Both threads look up a name in the root directory. The second one comes while the driver
answers the first one. -/
def lookupTwice : List (Event (Fin 2)) :=
  [.lookupInode 0 0 (letters ['a']), .lookupInode 1 0 (letters ['b'])] ++
    List.replicate 7 (.resume 0) ++ List.replicate 6 (.resume 1) ++
    [.driverLookup 0 0 (some 1), .resume 0, .resume 0]

/-- The second thread sleeps while the driver works for the first one without the mutex, and it has
been woken when the first one has left the directory. -/
theorem directories_exclusive_lookupTwice :
    ∃ tr s, Run Step sharedRoot tr s ∧
      (∃ s' ∈ visited tr s, s'.fsMutex = none ∧ s'.InLookup 0 ∧ s'.Asleep 1) ∧
      s.busy 0 = false ∧ ¬s.Asleep 1 ∧
      (∀ s' ∈ visited tr s, s'.DirectoriesSafe) ∧ ∀ p ∈ tr, p.1.AccessesAlone p.2 := by
  have hruns : (runs Enabled exec sharedRoot lookupTwice).any fun r =>
      (∃ p ∈ r.1, p.1.fsMutex = none ∧ p.1.InLookup 0 ∧ p.1.Asleep 1) ∧
        r.2.busy 0 = false ∧ ¬r.2.Asleep 1 := by
    decide
  obtain ⟨tr, s, hr, ⟨p, hp, hmid⟩, hend⟩ :=
    exists_run (P := fun tr (s : State (Fin 2)) =>
      (∃ p ∈ tr, p.1.fsMutex = none ∧ InLookup p.1 0 ∧ Asleep p.1 1) ∧
        s.busy 0 = false ∧ ¬s.Asleep 1) hruns
  have hquiet : sharedRoot.Quiet := ⟨fun _ => rfl, rfl, rfl, fun _ => rfl, fun _ => rfl⟩
  exact ⟨tr, s, hr, ⟨p.1, mem_visited.mpr (.inl ⟨p.2, hp⟩), hmid⟩, hend.1, hend.2,
    directories_exclusive hr hquiet⟩

end State

end GeekOS.Vfs
