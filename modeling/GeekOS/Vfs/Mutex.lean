import GeekOS.Vfs.Transitions

/-!
# Who holds `s_fs_mutex`, and who has marked a directory

A thread holds `s_fs_mutex` exactly at the points where the code says so, and a directory is busy
exactly while one thread is between `vfs_lock_dir` and `vfs_unlock_dir` on it. Both hold in every
run, whatever the drivers answer.

* `Move`: what a step does to the mutex and to the marks, for the thread that takes it;
* `Locked`: the invariant; `Locked.transition`: every step keeps it;
* `Balanced`: no mutex assertion fails next, and a thread outside of the functions of `vfs.c` has
  given back what it took;
* `balanced_iff_not_getRootDir`: a run is balanced throughout exactly when no thread goes through
  `vfs_get_root_dir`, whose label `done` locks the mutex a second time.
-/

namespace GeekOS.Vfs

open Result TransitionSystem

/-- The thread is at the label `done` of `vfs_get_root_dir`. -/
def Pc.locksAgain : Pc → Bool
  | getRootDirDone .. => true
  | _ => false

/-- The thread is between the two calls of `mutex_lock` in `vfs_get_root_dir`. -/
def Pc.inGetRootDir : Pc → Bool
  | getRootDir _ => true
  | _ => false

/-- `vfs_do_mount` keeps its hands off the mutex and the marks. -/
theorem DoMount.frame {T : Type} {s s' : State T} {name : Str} {r : DriverResults} {rc : ℤ}
    {root : Option InodeId} (h : DoMount s name r rc root s') :
    s'.pc = s.pc ∧ s'.fsMutex = s.fsMutex ∧ s'.busy = s.busy ∧
      s'.driverListMutex = s.driverListMutex := by
  cases h <;> exact ⟨rfl, rfl, rfl, rfl⟩

namespace State

variable {T : Type} [DecidableEq T]

/-- The thread `t` goes to `q`, and the mutex and the marks change with its point. -/
structure Move (s : State T) (e : Event T) (t : T) (q : Pc) (s' : State T) : Prop where
  thread : e.thread = t
  pc : s'.pc = Function.update s.pc t q
  mutex : (q.holds = (s.pc t).holds ∧ s'.fsMutex = s.fsMutex) ∨
    (s.fsMutex = none ∧ q.holds = true ∧ s'.fsMutex = some t) ∨
    (s.fsMutex = some t ∧ q.holds = false ∧ s'.fsMutex = none)
  mark : (q.marked = (s.pc t).marked ∧ s'.busy = s.busy) ∨
    (∃ d, (s.pc t).marked = none ∧ s.busy d = false ∧ q.marked = some d ∧
      s'.busy = Function.update s.busy d true) ∨
    (∃ d, (s.pc t).marked = some d ∧ q.marked = none ∧ s'.busy = Function.update s.busy d false)
  driverList : s'.driverListMutex = s.driverListMutex
  again : q.locksAgain = true ↔ e = .resume t ∧ (s.pc t).inGetRootDir = true

/-- The mutex is held, and the directories are busy, as the points of the threads say. -/
structure Locked (s : State T) : Prop where
  held : ∀ t, s.fsMutex = some t ↔ (s.pc t).holds = true
  busy : ∀ d, s.busy d = true ↔ ∃ t, (s.pc t).marked = some d
  unique : ∀ t u d, (s.pc t).marked = some d → (s.pc u).marked = some d → t = u
  driverList : s.driverListMutex = none

/-- The thread `t` leaves a function of `vfs.c`, or enters one, with the mutex and the marks as
they are. -/
structure Passes (s : State T) (t : T) (q : Pc) (s' : State T) : Prop where
  pc : s'.pc = Function.update s.pc t q
  outside : q.holds = false ∧ q.marked = none ∧ q.locksAgain = false
  fsMutex : s'.fsMutex = s.fsMutex
  busy : s'.busy = s.busy
  driverList : s'.driverListMutex = s.driverListMutex

variable {s s' : State T} {e : Event T} {t : T} {p q : Pc}

theorem passes_returnLookup (s : State T) (t : T) (l : Lookup) (inode : Except ℤ InodeId) :
    ∃ q, Passes s t q (s.returnLookup t l inode) := by
  unfold returnLookup
  split <;> exact ⟨_, rfl, ⟨rfl, rfl, rfl⟩, rfl, rfl, rfl⟩

theorem passes_returnRelease (s : State T) (t : T) (c : ReleaseCaller) (inode : Option InodeId) :
    ∃ q, Passes s t q (s.returnRelease t c inode) := by
  unfold returnRelease
  cases c <;> exact ⟨_, rfl, ⟨rfl, rfl, rfl⟩, rfl, rfl, rfl⟩

theorem passes_mountCheck (s : State T) (t : T) (m : Mount) :
    ∃ q, Passes s t q (s.mountCheck t m) := by
  rcases mountCheck_cases s t m with ⟨-, heq⟩ | ⟨-, -, heq⟩ | ⟨-, -, heq⟩ <;> rw [heq] <;>
    exact ⟨_, rfl, ⟨rfl, rfl, rfl⟩, rfl, rfl, rfl⟩

/-- A step that leaves the marks alone. -/
theorem exists_move (ht : e.thread = t) (hpc : s.pc t = p)
    (hpc' : s'.pc = Function.update s.pc t q)
    (hmutex : (q.holds = p.holds ∧ s'.fsMutex = s.fsMutex) ∨
      (s.fsMutex = none ∧ q.holds = true ∧ s'.fsMutex = some t) ∨
      (s.fsMutex = some t ∧ q.holds = false ∧ s'.fsMutex = none))
    (hmark : q.marked = p.marked) (hbusy : s'.busy = s.busy)
    (hlist : s'.driverListMutex = s.driverListMutex)
    (hagain : q.locksAgain = true ↔ e = .resume t ∧ p.inGetRootDir = true) :
    ∃ t q, Move s e t q s' := by
  subst hpc
  exact ⟨t, q, ht, hpc', hmutex, .inl ⟨hmark, hbusy⟩, hlist, hagain⟩

/-- A step from one function of `vfs.c` to another, or out of them, without the mutex. -/
theorem exists_move_of_passes (ht : e.thread = t) (hpc : s.pc t = p) (hpass : ∃ q, Passes s t q s')
    (hholds : p.holds = false) (hmark : p.marked = none) (hin : p.inGetRootDir = false) :
    ∃ t q, Move s e t q s' := by
  obtain ⟨q, hq, ⟨hqh, hqm, hqa⟩, hmutex, hbusy, hlist⟩ := hpass
  exact exists_move ht hpc hq (.inl ⟨hqh.trans hholds.symm, hmutex⟩) (hqm.trans hmark.symm) hbusy
    hlist (by simp [hqa, hin])

/-- The same where the mutex is released. -/
theorem exists_move_of_unlocks (ht : e.thread = t) (hpc : s.pc t = p) (hheld : s.fsMutex = some t)
    (hpass : ∃ q, Passes { s with fsMutex := none } t q s') (hmark : p.marked = none)
    (hin : p.inGetRootDir = false) : ∃ t q, Move s e t q s' := by
  obtain ⟨q, hq, ⟨hqh, hqm, hqa⟩, hmutex, hbusy, hlist⟩ := hpass
  exact exists_move ht hpc hq (.inr (.inr ⟨hheld, hqh, hmutex⟩)) (hqm.trans hmark.symm) hbusy
    hlist (by simp [hqa, hin])

/-- Every step but a registration moves one thread so. -/
theorem Transition.move (h : s.Locked) (ht : s.Transition e s') :
    ((∀ t, e ≠ .resume t) ∧ s'.pc = s.pc ∧ s'.fsMutex = s.fsMutex ∧ s'.busy = s.busy ∧
      s'.driverListMutex = none) ∨ ∃ t q, Move s e t q s' := by
  cases ht with
  | register hpc => exact .inl ⟨by simp, rfl, rfl, rfl, rfl⟩
  | call hpc hentry =>
    right
    cases hentry <;>
      exact exists_move rfl hpc rfl (.inl ⟨rfl, rfl⟩) rfl rfl rfl (by simp [Pc.locksAgain])
  | lock hpc hlock hawake hfree =>
    right
    cases hlock <;>
      exact exists_move rfl hpc rfl (.inr (.inl ⟨hfree, rfl, rfl⟩)) rfl rfl rfl
        (by simp [Pc.locksAgain, Pc.inGetRootDir])
  | lockAgain hpc hfree =>
    -- the mutex is not free: the thread holds it
    have hheld := (h.held _).mpr (by rw [hpc]; rfl)
    rw [hfree] at hheld
    cases hheld
  | getRootDir hpc =>
    right
    unfold vfsGetRootDir
    split <;>
      exact exists_move rfl hpc rfl (.inl ⟨rfl, rfl⟩) rfl rfl rfl
        (by simp [Pc.locksAgain, Pc.inGetRootDir, Event.thread])
  | pathTooLong hpc hlen =>
    exact .inr (exists_move_of_passes rfl hpc (passes_returnLookup ..) rfl rfl rfl)
  | lookupUnlock hpc hheld =>
    exact .inr (exists_move_of_unlocks rfl hpc hheld (passes_returnLookup ..) rfl rfl)
  | releaseNull hpc => exact .inr (exists_move_of_passes rfl hpc (passes_returnRelease ..) rfl rfl rfl)
  | releaseUnlock hpc hheld =>
    exact .inr (exists_move_of_unlocks rfl hpc hheld (passes_returnRelease ..) rfl rfl)
  | mountCheck hpc => exact .inr (exists_move_of_passes rfl hpc (passes_mountCheck ..) rfl rfl rfl)
  | wait hpc hheld hbusy | miss hpc hheld | mountUnlock hpc hheld | mountRootUnlock hpc hheld =>
    right
    exact exists_move rfl hpc rfl (.inr (.inr ⟨hheld, rfl, rfl⟩)) rfl rfl rfl
      (by simp [Pc.locksAgain, Pc.inGetRootDir])
  | adjusted hpc =>
    right
    unfold State.adjusted
    split <;>
      exact exists_move rfl hpc rfl (.inl ⟨rfl, rfl⟩) rfl rfl rfl
        (by simp [Pc.locksAgain, Pc.inGetRootDir])
  | @mark t x hpc hbusy =>
    -- `vfs_lock_dir` marks the directory, and keeps the mutex
    refine .inr ⟨t, .search x (s.childList x.dir).first, rfl, rfl, .inl ⟨?_, rfl⟩,
      .inr (.inl ⟨x.dir, ?_, hbusy, rfl, rfl⟩), rfl, ?_⟩
    · rw [hpc]
      rfl
    · rw [hpc]
      rfl
    · simp [hpc, Pc.locksAgain, Pc.inGetRootDir]
  | @unlockDirFailed t x rc hpc =>
    -- `vfs_unlock_dir` takes the mark away, with either result of the search
    refine .inr ⟨t, .adjustRefcounts (.lookupFailed x.lookup rc) (some x.dir) (-1), rfl,
      rfl, .inl ⟨?_, rfl⟩, .inr (.inr ⟨x.dir, ?_, rfl, rfl⟩), rfl, ?_⟩
    · rw [hpc]
      rfl
    · rw [hpc]
      rfl
    · simp [hpc, Pc.locksAgain, Pc.inGetRootDir]
  | @unlockDir t x i hpc =>
    refine .inr ⟨t, .lookupLoop x.lookup i x.path, rfl, rfl, .inl ⟨?_, rfl⟩,
      .inr (.inr ⟨x.dir, ?_, rfl, rfl⟩), rfl, ?_⟩
    · rw [hpc]
      rfl
    · rw [hpc]
      rfl
    · simp [hpc, Pc.locksAgain, Pc.inGetRootDir]
  | mountDo hpc hdo =>
    right
    obtain ⟨hpc', hmutex, hbusy, hlist⟩ := hdo.frame
    refine exists_move rfl hpc (congrArg (Function.update · _ _) hpc') (.inl ⟨?_, hmutex⟩) ?_ hbusy hlist
      ?_
    · split <;> rfl
    · split <;> rfl
    · split <;> simp [Pc.locksAgain]
  | mountRootDo hpc hdo =>
    right
    obtain ⟨hpc', hmutex, hbusy, hlist⟩ := hdo.frame
    exact exists_move rfl hpc (congrArg (Function.update · _ _) hpc') (.inl ⟨rfl, hmutex⟩) rfl hbusy
      hlist (by simp [Pc.locksAgain])
  | releaseCall hpc | lookupInode hpc | adjust hpc | found hpc | badName hpc | notDir hpc
  | nextName hpc | hit hpc | nextChild hpc | driverFound hpc | driverFailed hpc
  | releaseCheck hpc | mountStore hpc =>
    right
    exact exists_move rfl hpc rfl (.inl ⟨rfl, rfl⟩) rfl rfl rfl
      (by simp [Pc.locksAgain, Pc.inGetRootDir])

/-! ## The invariant -/

/-- The mutex stays with the thread whose point says so. -/
theorem Locked.held_move (h : s.Locked) (hm : Move s e t q s') (u : T) :
    s'.fsMutex = some u ↔ (s'.pc u).holds = true := by
  rw [hm.pc]
  rcases eq_or_ne u t with rfl | hne
  · rw [Function.update_self]
    rcases hm.mutex with ⟨hq, hmutex⟩ | ⟨-, hq, hmutex⟩ | ⟨-, hq, hmutex⟩
    · rw [hmutex, hq]
      exact h.held u
    · simp [hmutex, hq]
    · simp [hmutex, hq]
  · rw [Function.update_of_ne hne]
    rcases hm.mutex with ⟨-, hmutex⟩ | ⟨hfree, -, hmutex⟩ | ⟨hheld, -, hmutex⟩
    · rw [hmutex]
      exact h.held u
    · -- the mutex was free, or another thread's, so this one does not hold it
      have hu : ¬(s.pc u).holds = true := by
        rw [← h.held u, hfree]
        simp
      simp [hmutex, hu, Ne.symm hne]
    · have hu : ¬(s.pc u).holds = true := by
        rw [← h.held u, hheld]
        simpa using Ne.symm hne
      simp [hmutex, hu]

omit [DecidableEq T] in
/-- The mark of another thread is not the one that a step sets or takes away. -/
theorem Locked.marked_ne (h : s.Locked) {u : T} {d d' : InodeId} (hne : u ≠ t)
    (hu : (s.pc u).marked = some d') (hd : s.busy d = false ∨ (s.pc t).marked = some d) :
    d' ≠ d := by
  rintro rfl
  rcases hd with hbusy | ht
  · rw [(h.busy d').mpr ⟨u, hu⟩] at hbusy
    cases hbusy
  · exact hne (h.unique u t d' hu ht)

theorem Locked.of_move (h : s.Locked) (hm : Move s e t q s') : s'.Locked := by
  have hmarked : ∀ u, (s'.pc u).marked = if u = t then q.marked else (s.pc u).marked := by
    intro u
    rw [hm.pc]
    rcases eq_or_ne u t with rfl | hne
    · simp
    · simp [hne]
  refine ⟨h.held_move hm, fun d => ?_, fun u v d hu hv => ?_, hm.driverList.trans h.driverList⟩
  · rcases hm.mark with ⟨hq, hbusy⟩ | ⟨d', hp, hfree, hq, hbusy⟩ | ⟨d', hp, hq, hbusy⟩
    · -- a step that leaves the mark of its thread and the field alone
      have hsame : ∀ u, (s'.pc u).marked = (s.pc u).marked := by
        intro u
        rw [hmarked, hq]
        split
        next heq => rw [heq]
        · rfl
      rw [hbusy, h.busy d]
      simp [hsame]
    · rw [hbusy]
      rcases eq_or_ne d d' with rfl | hne
      · rw [Function.update_self]
        -- the directory that the thread has just marked
        simp only [true_iff]
        exact ⟨t, by rw [hmarked, if_pos rfl, hq]⟩
      · rw [Function.update_of_ne hne, h.busy d]
        constructor
        · rintro ⟨u, hu⟩
          have hut : u ≠ t := by
            rintro rfl
            rw [hp] at hu
            cases hu
          exact ⟨u, by rw [hmarked, if_neg hut, hu]⟩
        · rintro ⟨u, hu⟩
          rw [hmarked] at hu
          split at hu
          · rw [hq] at hu
            exact absurd (Option.some.inj hu).symm hne
          · exact ⟨u, hu⟩
    · rw [hbusy]
      rcases eq_or_ne d d' with rfl | hne
      · rw [Function.update_self]
        -- the directory whose mark has just been taken away, which no other thread has marked
        simp only [Bool.false_eq_true, false_iff, not_exists]
        intro u hu
        rw [hmarked] at hu
        split at hu
        · rw [hq] at hu
          cases hu
        next hut => exact h.marked_ne hut hu (.inr hp) rfl
      · rw [Function.update_of_ne hne, h.busy d]
        constructor
        · rintro ⟨u, hu⟩
          have hut : u ≠ t := by
            rintro rfl
            rw [hp] at hu
            exact hne (Option.some.inj hu).symm
          exact ⟨u, by rw [hmarked, if_neg hut, hu]⟩
        · rintro ⟨u, hu⟩
          rw [hmarked] at hu
          split at hu
          · rw [hq] at hu
            cases hu
          · exact ⟨u, hu⟩
  · -- two threads that mark one directory: neither of them has just done so
    have hother : ∀ w, w ≠ t → (s.pc w).marked = some d → q.marked ≠ some d := by
      intro w hw hd hq
      rcases hm.mark with ⟨hq', -⟩ | ⟨d', -, hfree, hq', -⟩ | ⟨d', -, hq', -⟩
      · exact hw (h.unique w t d hd (hq' ▸ hq))
      · rw [hq'] at hq
        exact h.marked_ne hw hd (.inl hfree) (Option.some.inj hq).symm
      · rw [hq'] at hq
        cases hq
    rw [hmarked] at hu hv
    split at hu <;> split at hv
    next hut hvt => rw [hut, hvt]
    next hut hvt => exact absurd hu (hother v hvt hv)
    next hut hvt => exact absurd hv (hother u hut hu)
    · exact h.unique u v d hu hv

/-- Every step keeps the mutex and the marks in order. -/
theorem Locked.transition (h : s.Locked) (ht : s.Transition e s') : s'.Locked := by
  rcases ht.move h with ⟨-, hpc, hmutex, hbusy, hlist⟩ | ⟨t, q, hm⟩
  · refine ⟨fun t => ?_, fun d => ?_, fun t u d => ?_, hlist⟩
    · rw [hmutex, hpc]
      exact h.held t
    · rw [hbusy, hpc]
      exact h.busy d
    · rw [hpc]
      exact h.unique t u d
  · exact h.of_move hm

/-- No step fails an assertion of the mutex but the one behind the label `done` of
`vfs_get_root_dir`. -/
theorem Locked.exec_error (h : s.Locked) (hp : ∀ t, (s.pc t).locksAgain = false) {f : Fault}
    (hf : s.exec e = .error f) : f.ofMutex = false := by
  cases fails_of_exec hf with
  | @lock t hlocks hheld =>
    -- a thread locks the mutex at points where it does not hold it, but for that one
    have hholds := (h.held t).mp hheld
    have hagain := hp t
    cases hpc : s.pc t <;> simp_all [Pc.holds, Pc.locks, Pc.locksAgain]
  | notHeld hholds hmutex => exact absurd ((h.held _).mpr hholds) hmutex
  | driverList hheld =>
    rw [h.driverList] at hheld
    cases hheld
  | adjust hpc hneg => rfl
  | other hm ha => exact hm

/-! ## The result -/

/-- No mutex assertion fails next, a thread outside of the functions of `vfs.c` holds no mutex, and
every directory that is marked as busy has been marked by a call that has not returned. -/
structure Balanced (s : State T) : Prop where
  asserts : ∀ e f, s.Enabled e → s.exec e = .error f → f.ofMutex = false
  unlocked : ∀ t, s.pc t = .idle → s.fsMutex ≠ some t ∧ s.driverListMutex ≠ some t
  unmarked : ∀ d, s.busy d = true → ∃ t, s.pc t ≠ .idle ∧ (s.pc t).marked = some d

/-- What is left of it is that no thread is about to lock the mutex a second time. -/
theorem Locked.balanced_iff (h : s.Locked) :
    s.Balanced ↔ ∀ t, (s.pc t).locksAgain = false := by
  constructor
  · intro hbal t
    by_contra hagain
    have hpc : ∃ c dir, s.pc t = .getRootDirDone c dir := by
      cases hp : s.pc t <;> simp_all [Pc.locksAgain]
    obtain ⟨c, dir, hpc⟩ := hpc
    have hheld : s.fsMutex = some t := (h.held t).mpr (by rw [hpc]; rfl)
    have hen : s.Enabled (.resume t) := by
      refine ⟨?_, ?_, ?_, fun _ => .inr hheld⟩
      · simp [hpc]
      · rw [hpc]
        rfl
      · simp [Asleep, hpc]
    -- `mutex_lock` at the label `done`
    have herr : s.exec (.resume t) = .error .mutexHeld := by
      simp only [exec, resume, hpc, mutexLock_held hheld]
      rfl
    cases hbal.asserts _ _ hen herr
  · intro hp
    refine ⟨fun e f _ hf => h.exec_error hp hf, fun t hidle => ⟨fun hheld => ?_, ?_⟩,
      fun d hd => ?_⟩
    · have hholds := (h.held t).mp hheld
      rw [hidle] at hholds
      cases hholds
    · rw [h.driverList]
      simp
    · obtain ⟨t, ht⟩ := (h.busy d).mp hd
      refine ⟨t, fun hidle => ?_, ht⟩
      rw [hidle] at ht
      cases ht

/-- The step is not one of a thread that goes through `vfs_get_root_dir`. -/
def OutsideGetRootDir (s : State T) (e : Event T) : Prop :=
  ∀ t, e = .resume t → (s.pc t).inGetRootDir = false

/-- In every run, whatever the drivers answer, all states are balanced if and only if no thread
goes through `vfs_get_root_dir`. -/
theorem balanced_iff_not_getRootDir {s₀ : State T} {tr : List (State T × Event T)}
    (hr : Run Step s₀ tr s) (h₀ : s₀.Locked) (hp₀ : ∀ t, (s₀.pc t).locksAgain = false) :
    (∀ s' ∈ visited tr s, s'.Balanced) ↔ ∀ p ∈ tr, p.1.OutsideGetRootDir p.2 := by
  refine hr.states_iff_steps h₀ (fun _ _ _ h hs => h.transition hs.transition)
    (h₀.balanced_iff.mpr hp₀) ?_
  intro s₁ e s₂ hl hbal hs
  have hp := hl.balanced_iff.mp hbal
  rw [(hl.transition hs.transition).balanced_iff]
  -- a thread comes to the label `done` at the step through `vfs_get_root_dir`, and at no other
  rcases hs.transition.move hl with ⟨hne, hpc, -⟩ | ⟨t, q, hm⟩
  · rw [hpc]
    exact ⟨fun _ t he => absurd he (hne t), fun _ => hp⟩
  · rw [hm.pc]
    have hsplit : (∀ u, (Function.update s₁.pc t q u).locksAgain = false) ↔
        q.locksAgain = false := by
      constructor
      · intro hall
        simpa using hall t
      · intro hq u
        rcases eq_or_ne u t with rfl | hne
        · simpa using hq
        · simpa [hne] using hp u
    rw [hsplit, ← Bool.not_eq_true, hm.again]
    constructor
    · rintro hnot u rfl
      obtain rfl : u = t := hm.thread
      simpa using hnot
    · rintro hout ⟨rfl, hin⟩
      rw [hout t rfl] at hin
      cases hin

omit [DecidableEq T] in
theorem initial_locked : (initial : State T).Locked := by
  refine ⟨fun t => ?_, fun d => ?_, fun t u d ht => ?_, rfl⟩
  · simp [initial, Pc.holds]
  · simp [initial, Pc.marked]
  · cases ht

attribute [local instance] neZero_one in
/-- A thread calls `vfs_lookup_inode` on the root directory, whose driver finds a child of the
name, and the call returns. -/
def lookupRoot : List (Event (Fin 1)) :=
  .lookupInode 0 0 (letters ['a']) :: List.replicate 7 (.resume 0) ++
    .driverLookup 0 0 (some 1) :: List.replicate 4 (.resume 0)

/-- The root directory is mounted. -/
def rootMounted : State (Fin 1) :=
  { initial with rootDir := some 0, refcount := Function.update (fun _ => 0) 0 1 }

/-- The lookup is balanced throughout: it does not go through `vfs_get_root_dir`. -/
theorem balanced_lookupRoot :
    (after Enabled exec rootMounted lookupRoot).returned.length = 1 ∧
    ∃ tr, Run Step rootMounted tr (after Enabled exec rootMounted lookupRoot) ∧
      ((∀ s' ∈ visited tr (after Enabled exec rootMounted lookupRoot), s'.Balanced) ↔
        ∀ p ∈ tr, p.1.OutsideGetRootDir p.2) := by
  have hrun : ∃ tr, Run Step rootMounted tr (after Enabled exec rootMounted lookupRoot) :=
    run_after (by decide)
  obtain ⟨tr, hr⟩ := hrun
  have h₀ : rootMounted.Locked := ⟨initial_locked.held, initial_locked.busy,
    initial_locked.unique, initial_locked.driverList⟩
  exact ⟨by decide, tr, hr, balanced_iff_not_getRootDir hr h₀ fun _ => rfl⟩

/-- A call of `vfs_get_root_dir` comes to an assertion that fails: it locks the mutex that it
holds. -/
theorem not_balanced_getRootDir :
    Reachable Step rootMounted
        (after Enabled exec rootMounted [.getRootDir 0, .resume 0, .resume 0]) ∧
      (after Enabled exec rootMounted [.getRootDir 0, .resume 0, .resume 0]).exec (.resume 0) =
        .error .mutexHeld ∧
      ¬(after Enabled exec rootMounted [.getRootDir 0, .resume 0, .resume 0]).Balanced := by
  refine ⟨reachable_after rfl, rfl, fun hbal => ?_⟩
  have hmutex := hbal.asserts (.resume 0) .mutexHeld (by decide) rfl
  cases hmutex

end State

end GeekOS.Vfs
