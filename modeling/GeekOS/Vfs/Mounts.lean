import GeekOS.Vfs.MountRoot

/-!
# Mounting on a directory

Several threads are in `vfs_mount` and have come to the same directory. Each of them looks at the
mount field of the directory before it locks `s_fs_mutex`, and stores into it after the driver has
been called; it does not look again.

* `State.Racing`, `State.Exclusive`: the invariant, on the threads one by one and on all of them;
* `State.MountedOnce`: one of them mounts and the others get `EEXIST`, with their references
  released;
* `mountedOnce_of_checksAlone`: this is so in every run in which no thread looks at the field
  between another one's look and its store.
-/

namespace GeekOS.Vfs

open Result TransitionSystem

/-- The code that `vfs_mount` returns behind the release. -/
def ReleaseCaller.code : ReleaseCaller → Option ℤ
  | direct => none
  | mountpoint _ rc | rootDir _ rc => some rc

/-- The code that `vfs_mount` is about to return. -/
def Pc.code : Pc → Option ℤ
  | adjustRefcounts (.mounted _) _ _ => some 0
  | mountUnlock _ rc => some rc
  | adjustRefcounts (.release c _) _ _ | releaseRef c _ | releaseCheck c _ | releaseUnlock c _ =>
      c.code
  | _ => none

/-- The thread is between its look at the mount field and its store. -/
def Pc.Mounting (mountpoint : InodeId) : Pc → Prop
  | mountLock m | mountDo m | mountStore m _ => m.mountpoint = mountpoint
  | _ => False

instance (mountpoint : InodeId) (p : Pc) : Decidable (p.Mounting mountpoint) := by
  cases p <;> unfold Pc.Mounting <;> infer_instance

/-- The thread has found its mount point, and has not stored yet. -/
def Pc.AtMount (m : Mount) : Pc → Prop
  | mountCheck m' | mountLock m' | mountDo m' | mountStore m' _ => m' = m
  | _ => False

theorem Pc.AtMount.unique {p : Pc} {m m' : Mount} (h : p.AtMount m) (h' : p.AtMount m') :
    m = m' := by
  cases p <;> first | exact h.elim | exact Eq.trans (Eq.symm h) h'

section Phases

variable {T : Type} (new : List (Return T)) (t : T) (m : Mount)

/-- The codes that are left if the driver succeeds. -/
def Settles (rc : ℤ) : Prop := rc = 0 ∨ rc = eexist

/-- `vfs_mount` has its code, and releases the mount point and then the root directory. -/
def ReleaseCaller.Releases : ReleaseCaller → Option InodeId → Prop
  | .direct, _ => False
  | .mountpoint d rc, i => d = some m.rootDir ∧ i = some m.mountpoint ∧ Settles rc
  | .rootDir d rc, i => d = some m.mountpoint ∧ i = some m.rootDir ∧ Settles rc ∧
      .releaseRef t (some m.mountpoint) ∈ new

/-- Where a thread is that was on its way to mount. -/
def Pc.InMount : Pc → Prop
  | idle => True
  | mountCheck m' | mountLock m' | mountDo m' | mountStore m' _
  | adjustRefcounts (.mounted m') _ _ => m' = m
  | mountUnlock m' rc => m' = m ∧ Settles rc
  | releaseRef c i => c.Releases new t m i
  | releaseCheck c i | releaseUnlock c i | adjustRefcounts (.release c i) _ _ =>
      c.Releases new t m (some i)
  | _ => False

variable {new t m} {new' : List (Return T)}

theorem ReleaseCaller.Releases.mono {c : ReleaseCaller} {i : Option InodeId}
    (h : c.Releases new t m i) (hsub : new ⊆ new') : c.Releases new' t m i := by
  cases c with
  | direct => exact h
  | mountpoint d rc => exact h
  | rootDir d rc => exact ⟨h.1, h.2.1, h.2.2.1, hsub h.2.2.2⟩

theorem Pc.InMount.mono {p : Pc} (h : p.InMount new t m) (hsub : new ⊆ new') :
    p.InMount new' t m := by
  cases p with
  | releaseRef c i => exact ReleaseCaller.Releases.mono h hsub
  | releaseCheck c i | releaseUnlock c i => exact ReleaseCaller.Releases.mono h hsub
  | adjustRefcounts c i delta =>
    cases c with
    | release c i => exact ReleaseCaller.Releases.mono h hsub
    | _ => exact h
  | _ => exact h

end Phases

/-- A thread goes on with its call. -/
def Event.Continues {T : Type} : Event T → Prop
  | .resume _ | .doMount .. => True
  | _ => False

namespace State

variable {T : Type} [DecidableEq T]

/-- The thread is in `vfs_mount` and has come to the directory `mountpoint`. -/
def OnMountpoint (s : State T) (mountpoint : InodeId) (t : T) (m : Mount) : Prop :=
  (s.pc t).AtMount m ∧ m.mountpoint = mountpoint

/-- The thread is going to return success, or has. -/
def Won (s₀ s : State T) (mountpoint : InodeId) (new : List (Return T)) (t : T) : Prop :=
  (∃ m, s₀.OnMountpoint mountpoint t m) ∧ ((s.pc t).code = some 0 ∨ ∃ i, .mount t i 0 ∈ new)

/-- Of the threads that were on their way to mount on the directory at most one has returned
success; the others have returned `EEXIST`; and all have released their references. -/
structure MountedOnce (s₀ : State T) (mountpoint : InodeId) (new : List (Return T)) : Prop where
  once : ∀ t u i j, .mount t i 0 ∈ new → .mount u j 0 ∈ new → t = u
  code : ∀ t i rc, .mount t i rc ∈ new → rc = 0 ∨ rc = eexist
  released : ∀ t i rc, .mount t i rc ∈ new → ∃ m, s₀.OnMountpoint mountpoint t m ∧
    .releaseRef t (some m.mountpoint) ∈ new ∧ .releaseRef t (some m.rootDir) ∈ new

/-- The part of the invariant that is about each thread. -/
structure Racing (s₀ : State T) (mountpoint : InodeId) (new : List (Return T)) (s : State T) :
    Prop where
  returned : s.returned = new ++ s₀.returned
  type : s.type mountpoint = .dir
  phase : ∀ t m, s₀.OnMountpoint mountpoint t m → (s.pc t).InMount new t m
  records : ∀ t i rc, .mount t i rc ∈ new → s.pc t = .idle ∧ Settles rc ∧
    ∃ m, s₀.OnMountpoint mountpoint t m ∧ .releaseRef t (some m.mountpoint) ∈ new ∧
      .releaseRef t (some m.rootDir) ∈ new

/-- The part that is about all of them: one thread at a time is between its look and its store, and
then nobody has stored. -/
structure Exclusive (s₀ : State T) (mountpoint : InodeId) (new : List (Return T)) (s : State T) :
    Prop where
  alone : ∀ t u, (s.pc t).Mounting mountpoint → (s.pc u).Mounting mountpoint → t = u
  free : ∀ t, (s.pc t).Mounting mountpoint → s.mount mountpoint = none
  once : ∀ t u, Won s₀ s mountpoint new t → Won s₀ s mountpoint new u → t = u
  mounted : ∀ t, Won s₀ s mountpoint new t → s.mount mountpoint ≠ none

variable {s₀ s s' : State T} {mountpoint : InodeId} {new added : List (Return T)} {t : T} {m : Mount}
  {q : Pc} {e : Event T}

/-- One of the threads has moved, and has returned what it had to. -/
theorem Racing.of_move (added : List (Return T)) (h : Racing s₀ mountpoint new s)
    (hm : s₀.OnMountpoint mountpoint t m)
    (hne : s.pc t ≠ .idle) (hpc' : s'.pc = Function.update s.pc t q)
    (hq : q.InMount (added ++ new) t m) (htype : s'.type = s.type)
    (hret : s'.returned = added ++ s.returned)
    (hadded : ∀ u i rc, .mount u i rc ∈ added → u = t ∧ q = .idle ∧ Settles rc ∧
      .releaseRef t (some m.mountpoint) ∈ added ++ new ∧
      .releaseRef t (some m.rootDir) ∈ added ++ new) :
    Racing s₀ mountpoint (added ++ new) s' := by
  have hsub : new ⊆ added ++ new := fun _ => List.mem_append_right _
  refine ⟨?_, ?_, fun u m' hm' => ?_, fun u i rc hr => ?_⟩
  · rw [hret, h.returned, List.append_assoc]
  · rw [htype]
    exact h.type
  · rw [hpc']
    rcases eq_or_ne u t with rfl | hut
    · obtain rfl := hm.1.unique hm'.1
      rwa [Function.update_self]
    · rw [Function.update_of_ne hut]
      exact (h.phase u m' hm').mono hsub
  · rcases List.mem_append.mp hr with hr | hr
    · obtain ⟨rfl, rfl, hrc, hrel, hrel'⟩ := hadded u i rc hr
      refine ⟨by rw [hpc', Function.update_self], hrc, m, hm, hrel, hrel'⟩
    · obtain ⟨hidle, hrc, m', hm', hrel, hrel'⟩ := h.records u i rc hr
      -- a thread that has returned is idle, and this one is in a call
      have hut : u ≠ t := by
        rintro rfl
        exact hne hidle
      refine ⟨by rw [hpc', Function.update_of_ne hut, hidle], hrc, m', hm', hsub hrel, hsub hrel'⟩

/-- The others do not notice a step that comes neither nearer to a store nor nearer to success. -/
theorem Exclusive.of_move (added : List (Return T)) (h : Exclusive s₀ mountpoint new s)
    (hpc' : s'.pc = Function.update s.pc t q) (hmount : s'.mount = s.mount)
    (hmounting : q.Mounting mountpoint → (s.pc t).Mounting mountpoint)
    (hcode : q.code = some 0 ∨ (∃ i, .mount t i 0 ∈ added) → (s.pc t).code = some 0)
    (hadded : ∀ u i, .mount u i 0 ∈ added → u = t) :
    Exclusive s₀ mountpoint (added ++ new) s' := by
  -- nobody has come between look and store
  have hback : ∀ u, (s'.pc u).Mounting mountpoint → (s.pc u).Mounting mountpoint := by
    intro u hu
    rcases eq_or_ne u t with rfl | hne
    · rw [hpc', Function.update_self] at hu
      exact hmounting hu
    · rwa [hpc', Function.update_of_ne hne] at hu
  -- nobody has won who had not won before
  have hwon : ∀ u, Won s₀ s' mountpoint (added ++ new) u → Won s₀ s mountpoint new u := by
    rintro u ⟨hm, hu⟩
    refine ⟨hm, ?_⟩
    rcases eq_or_ne u t with rfl | hne
    · rw [hpc', Function.update_self] at hu
      rcases hu with hq | ⟨i, hi⟩
      · exact .inl (hcode (.inl hq))
      · rcases List.mem_append.mp hi with hi | hi
        · exact .inl (hcode (.inr ⟨i, hi⟩))
        · exact .inr ⟨i, hi⟩
    · rw [hpc', Function.update_of_ne hne] at hu
      refine hu.imp_right fun ⟨i, hi⟩ => ?_
      rcases List.mem_append.mp hi with hi | hi
      · exact absurd (hadded u i hi) hne
      · exact ⟨i, hi⟩
  refine ⟨fun u v hu hv => h.alone u v (hback u hu) (hback v hv), fun u hu => ?_,
    fun u v hu hv => h.once u v (hwon u hu) (hwon v hv), fun u hu => ?_⟩
  · rw [hmount]
    exact h.free u (hback u hu)
  · rw [hmount]
    exact h.mounted u (hwon u hu)

/-- A thread that finds the field null while nobody else is between look and store. -/
theorem Exclusive.check (h : Exclusive s₀ mountpoint new s)
    (hpc' : s'.pc = Function.update s.pc t (.mountLock m)) (hmount : s'.mount = s.mount)
    (hnone : s.mount mountpoint = none) (halone : ∀ u, ¬(s.pc u).Mounting mountpoint) :
    Exclusive s₀ mountpoint new s' := by
  have honly : ∀ u, (s'.pc u).Mounting mountpoint → u = t := by
    intro u hu
    by_contra hne
    rw [hpc', Function.update_of_ne hne] at hu
    exact halone u hu
  have hwon : ∀ u, ¬Won s₀ s' mountpoint new u := by
    rintro u ⟨hm, hu⟩
    -- somebody who has won has set the field, and it is null
    refine h.mounted u ⟨hm, ?_⟩ hnone
    rcases eq_or_ne u t with rfl | hne
    · rw [hpc', Function.update_self] at hu
      exact hu.imp_left fun hcode => absurd hcode (by simp [Pc.code])
    · rwa [hpc', Function.update_of_ne hne] at hu
  refine ⟨fun u v hu hv => (honly u hu).trans (honly v hv).symm, fun u _ => ?_,
    fun u v hu _ => absurd hu (hwon u), fun u hu => absurd hu (hwon u)⟩
  rw [hmount, hnone]

/-- The store. -/
theorem Exclusive.store (h : Exclusive s₀ mountpoint new s) (hbefore : (s.pc t).Mounting mountpoint)
    (hpc' : s'.pc = Function.update s.pc t q) (hq : ¬q.Mounting mountpoint)
    (hmount : s'.mount mountpoint ≠ none) : Exclusive s₀ mountpoint new s' := by
  have hnobody : ∀ u, ¬(s'.pc u).Mounting mountpoint := by
    intro u hu
    rcases eq_or_ne u t with rfl | hne
    · rw [hpc', Function.update_self] at hu
      exact hq hu
    · rw [hpc', Function.update_of_ne hne] at hu
      exact hne (h.alone u t hu hbefore)
  have honly : ∀ u, Won s₀ s' mountpoint new u → u = t := by
    rintro u ⟨hm, hu⟩
    by_contra hne
    rw [hpc', Function.update_of_ne hne] at hu
    -- another one has won before the store, with the field still null
    exact h.mounted u ⟨hm, hu⟩ (h.free t hbefore)
  exact ⟨fun u v hu _ => absurd hu (hnobody u), fun u hu => absurd hu (hnobody u),
    fun u v hu hv => (honly u hu).trans (honly v hv).symm, fun u _ => hmount⟩

/-! ## Steps -/

/-- No other thread is between its look at a mount field and its store, when a thread looks and finds
the field null. -/
def ChecksAlone (s : State T) : Event T → Prop
  | .resume t =>
      match s.pc t with
      | .mountCheck m => s.mount m.mountpoint = none → ∀ u, ¬(s.pc u).Mounting m.mountpoint
      | _ => True
  | _ => True

/-- The driver creates an instance and its root directory, or it returns `EEXIST`. -/
def DriverSettles (s : State T) : Event T → Prop
  | .doMount t r =>
      match s.pc t with
      | .mountDo m => Settles (r.code m.fsDriverName s.driverList)
      | _ => True
  | _ => True

/-- A state of the race, and what has been returned in it. -/
def InRace (s₀ : State T) (mountpoint : InodeId) (s : State T) : Prop :=
  ∃ new, Racing s₀ mountpoint new s ∧ Exclusive s₀ mountpoint new s

/-- Mount fields that are set keep what they are set to. -/
def KeepsMounts (s s' : State T) : Prop :=
  ∀ i root, s.mount i = some root → s'.mount i = some root

omit [DecidableEq T] in
theorem KeepsMounts.of_eq (h : s'.mount = s.mount) : s.KeepsMounts s' := by
  intro i root hi
  rwa [h]

/-- A thread moves on, with nothing stored and nothing returned. -/
theorem Racing.goto (h : Racing s₀ mountpoint new s) (hx : Exclusive s₀ mountpoint new s)
    (hm : s₀.OnMountpoint mountpoint t m) (hne : s.pc t ≠ .idle)
    (hpc' : s'.pc = Function.update s.pc t q) (hq : q.InMount new t m)
    (hframe : s'.type = s.type ∧ s'.mount = s.mount ∧ s'.returned = s.returned)
    (hmounting : q.Mounting mountpoint → (s.pc t).Mounting mountpoint)
    (hcode : q.code = some 0 → (s.pc t).code = some 0) :
    InRace s₀ mountpoint s' ∧ s.KeepsMounts s' := by
  obtain ⟨htype, hmount, hret⟩ := hframe
  refine ⟨⟨new, ?_, ?_⟩, .of_eq hmount⟩
  · exact h.of_move [] hm hne hpc' hq htype hret fun u i rc hr => absurd hr List.not_mem_nil
  · exact hx.of_move [] hpc' hmount hmounting
      (fun hc => hcode (hc.resolve_right fun ⟨i, hi⟩ => List.not_mem_nil hi))
      fun u i hi => absurd hi List.not_mem_nil

/-- A release has ended, and after the second of them `vfs_mount` returns. -/
theorem Racing.returnRelease (h : Racing s₀ mountpoint new s) (hx : Exclusive s₀ mountpoint new s)
    (hm : s₀.OnMountpoint mountpoint t m) (hne : s.pc t ≠ .idle) {s₁ : State T}
    {c : ReleaseCaller} {inode : Option InodeId} (hpc : s₁.pc = s.pc)
    (hframe : s₁.type = s.type ∧ s₁.mount = s.mount ∧ s₁.returned = s.returned)
    (hc : c.Releases new t m inode) (hcode : (s.pc t).code = c.code) :
    InRace s₀ mountpoint (s₁.returnRelease t c inode) ∧
      s.KeepsMounts (s₁.returnRelease t c inode) := by
  obtain ⟨htype, hmount, hret⟩ := hframe
  cases c with
  | direct => exact hc.elim
  -- the reference to the mount point has been given back; that to the root directory comes next
  | mountpoint d rc =>
    obtain ⟨hd, rfl, hrc⟩ := hc
    refine ⟨⟨[.releaseRef t (some m.mountpoint)] ++ new, ?_, ?_⟩, .of_eq hmount⟩
    · refine h.of_move (q := .releaseRef (.rootDir (some m.mountpoint) rc) d) _ hm hne
        (congrArg (Function.update · t _) hpc) ⟨rfl, hd, hrc, by simp⟩ htype
        (congrArg (_ :: ·) hret) ?_
      simp
    · exact hx.of_move (q := .releaseRef (.rootDir (some m.mountpoint) rc) d) _
        (congrArg (Function.update · t _) hpc) hmount (fun hq => hq.elim)
        (fun hc => hcode.trans (hc.resolve_right (by simp))) (by simp)
  | rootDir d rc =>
    obtain ⟨rfl, rfl, hrc, hrel⟩ := hc
    refine ⟨⟨[.mount t (some m.mountpoint) rc, .releaseRef t (some m.rootDir)] ++ new, ?_, ?_⟩,
      .of_eq hmount⟩
    · refine h.of_move (q := .idle) _ hm hne (congrArg (Function.update · t _) hpc) trivial htype
        (congrArg (_ :: _ :: ·) hret) fun u i rc' hr => ?_
      obtain ⟨rfl, -, rfl⟩ : u = t ∧ i = some m.mountpoint ∧ rc' = rc := by simpa using hr
      exact ⟨rfl, rfl, hrc, by simp [hrel], by simp⟩
    · refine hx.of_move (q := .idle) _ (congrArg (Function.update · t _) hpc) hmount
        (fun hq => hq.elim) ?_ (by simp)
      rintro (hq | ⟨i, hi⟩)
      · cases hq
      · -- success is returned only by the thread that was going to return it
        obtain ⟨-, rfl⟩ : i = some m.mountpoint ∧ rc = 0 := by simpa [eq_comm] using hi
        exact hcode

/-- The driver has answered the mounting thread. -/
theorem Racing.mountDo (h : Racing s₀ mountpoint new s) (hx : Exclusive s₀ mountpoint new s)
    (hm : s₀.OnMountpoint mountpoint t m) (hpc : s.pc t = .mountDo m) {r : DriverResults}
    (hD : Settles (r.code m.fsDriverName s.driverList)) (hs : s.mountDo t m r = .ok s') :
    InRace s₀ mountpoint s' ∧ s.KeepsMounts s' := by
  obtain ⟨⟨rc, root, s₁⟩, hdo, hs⟩ := bind_eq_ok.mp hs
  -- `vfs_do_mount` returns the driver's code, or `EEXIST` on behalf of the root
  have hrc : Settles rc := by
    by_cases hroot : s.rootInstance = none
    · rw [(vfsDoMount_ok hroot hdo).1]
      exact hD
    · exact .inr (vfsDoMount_refused hroot hdo)
  have hframe : s₁.pc = s.pc ∧ s₁.type = s.type ∧ s₁.mount = s.mount ∧ s₁.returned = s.returned := by
    cases doMount_of_vfsDoMount hdo <;> exact ⟨rfl, rfl, rfl, rfl⟩
  obtain ⟨hpc₁, hframe⟩ := hframe
  have hne : s.pc t ≠ .idle := by simp [hpc]
  have hmounting : (s.pc t).Mounting mountpoint := by
    rw [hpc]
    exact hm.2
  dsimp only at hs
  split at hs
  next h0 =>
    obtain rfl := pure_eq_ok.mp hs
    exact h.goto (q := .mountStore m root) hx hm hne (congrArg (Function.update · t _) hpc₁) rfl
      hframe (fun _ => hmounting) fun hc => by cases hc
  next h0 =>
    obtain rfl := pure_eq_ok.mp hs
    exact h.goto (q := .mountUnlock m rc) hx hm hne (congrArg (Function.update · t _) hpc₁)
      ⟨rfl, hrc⟩ hframe (fun hq => hq.elim) fun hc => absurd (Option.some.inj hc) h0

/-- A thread has looked at its mount point. -/
theorem Racing.mountCheck (h : Racing s₀ mountpoint new s) (hx : Exclusive s₀ mountpoint new s)
    (hm : s₀.OnMountpoint mountpoint t m) (hpc : s.pc t = .mountCheck m)
    (hC : s.mount m.mountpoint = none → ∀ u, ¬(s.pc u).Mounting m.mountpoint) :
    InRace s₀ mountpoint (s.mountCheck t m) ∧ s.KeepsMounts (s.mountCheck t m) := by
  have hne : s.pc t ≠ .idle := by simp [hpc]
  have hdir : s.type m.mountpoint = .dir := by
    rw [hm.2]
    exact h.type
  rcases mountCheck_cases s t m with ⟨hnot, -⟩ | ⟨-, -, heq⟩ | ⟨-, hnone, heq⟩
  · -- no step changes the type of the mount point
    exact absurd hdir hnot
  · rw [heq]
    -- something is mounted: `EEXIST`, and the references are given back
    exact h.goto (q := .releaseRef _ _) hx hm hne rfl ⟨rfl, rfl, .inr rfl⟩ ⟨rfl, rfl, rfl⟩
      (fun hq => hq.elim) fun hc => by cases hc
  · rw [heq]
    refine ⟨⟨new, ?_, ?_⟩, .of_eq rfl⟩
    · exact h.of_move (q := .mountLock m) [] hm hne rfl rfl rfl rfl fun u i rc hr =>
        absurd hr List.not_mem_nil
    · rw [hm.2] at hnone hC
      exact hx.check rfl rfl hnone (hC hnone)

/-- Every step of one of the threads. -/
theorem InRace.step (h : InRace s₀ mountpoint s) (hm : ∃ m, s₀.OnMountpoint mountpoint e.thread m)
    (he : e.Continues) (hC : s.ChecksAlone e) (hD : s.DriverSettles e) (hs : Step s e s') :
    InRace s₀ mountpoint s' ∧ s.KeepsMounts s' := by
  obtain ⟨new, h, hx⟩ := h
  obtain ⟨m, hm⟩ := hm
  have hphase := h.phase e.thread m hm
  -- most sections of `vfs_mount` neither store nor return anything
  have hquiet : ∀ {t : T} {p q : Pc} {s' : State T}, s₀.OnMountpoint mountpoint t m → s.pc t = p →
      s'.pc = Function.update s.pc t q → q.InMount new t m → p ≠ .idle →
      s'.type = s.type ∧ s'.mount = s.mount ∧ s'.returned = s.returned →
      (q.Mounting mountpoint → p.Mounting mountpoint) → (q.code = some 0 → p.code = some 0) →
        InRace s₀ mountpoint s' ∧ s.KeepsMounts s' := by
    rintro t p q s' hm rfl hpc' hq hne hframe hmounting hcode
    exact h.goto hx hm hne hpc' hq hframe hmounting hcode
  have hframe : s.type = s.type ∧ s.mount = s.mount ∧ s.returned = s.returned := ⟨rfl, rfl, rfl⟩
  have hexec := hs.2
  cases hs.transition with
  | call hpc hentry => cases hentry <;> exact he.elim
  -- no new call is made, and no lookup is in progress
  | releaseCall hpc | register hpc | driverFound hpc | driverFailed hpc hrc => exact he.elim
  | @lock t p q hpc hlock hawake hfree =>
    simp only [Event.thread, hpc] at hphase hm
    cases hlock with
    | release c i =>
      exact hquiet hm hpc (q := .releaseCheck c i) rfl hphase (by simp) hframe id id
    | mount m' => exact hquiet hm hpc (q := .mountDo m') rfl hphase (by simp) hframe id id
    | _ => exact hphase.elim
  | @adjusted t c delta hpc =>
    simp only [Event.thread, hpc] at hphase hm
    cases c with
    | release c i =>
      exact hquiet hm hpc (q := .releaseUnlock c i) rfl hphase (by simp) hframe id id
    | mounted m' =>
      exact hquiet hm hpc (q := .mountUnlock m' 0) rfl ⟨hphase, .inl rfl⟩ (by simp) hframe id id
    | _ => exact hphase.elim
  | @adjust t c i delta hpc =>
    simp only [Event.thread, hpc] at hphase hm
    refine hquiet hm hpc (q := .adjustRefcounts c (s.parent i) delta) rfl ?_ (by simp) hframe
      (fun hq => hq.elim) ?_
    · cases c <;> exact hphase
    · cases c <;> exact id
  | @releaseNull t c hpc =>
    simp only [Event.thread, hpc] at hphase hm
    exact h.returnRelease hx hm (by simp [hpc]) rfl hframe hphase (by rw [hpc]; rfl)
  | @releaseCheck t c i hpc =>
    simp only [Event.thread, hpc] at hphase hm
    exact hquiet hm hpc (q := .adjustRefcounts (.release c i) _ _) rfl hphase (by simp) hframe id id
  | @releaseUnlock t c i hpc hheld =>
    simp only [Event.thread, hpc] at hphase hm
    exact h.returnRelease hx hm (by simp [hpc]) rfl hframe hphase (by rw [hpc]; rfl)
  | @mountCheck t m' hpc =>
    simp only [Event.thread, hpc] at hphase hm
    obtain rfl : m' = m := hphase
    simp only [ChecksAlone, hpc] at hC
    exact h.mountCheck hx hm hpc hC
  | @mountDo t m' r rc root s₁ hpc hdo =>
    simp only [Event.thread, hpc] at hphase hm
    obtain rfl : m' = m := hphase
    simp only [DriverSettles, hpc] at hD
    simp only [exec, hpc] at hexec
    exact h.mountDo hx hm hpc hD hexec
  | @mountStore t m' root hpc =>
    simp only [Event.thread, hpc] at hphase hm
    obtain rfl : m' = m := hphase
    have hmounting : (s.pc t).Mounting mountpoint := by
      rw [hpc]
      exact hm.2
    refine ⟨⟨new, ?_, ?_⟩, fun i r hi => ?_⟩
    · exact h.of_move (q := .adjustRefcounts (.mounted m') _ _) [] hm (by simp [hpc]) rfl
        rfl rfl rfl fun u i rc hr => absurd hr List.not_mem_nil
    · -- nobody else is between look and store, so nobody's look has become stale
      refine hx.store (q := .adjustRefcounts (.mounted m') _ _) hmounting rfl id ?_
      simp [← hm.2]
    · -- the field was null until now
      have hne : i ≠ m'.mountpoint := by
        rintro rfl
        rw [hm.2, hx.free t hmounting] at hi
        cases hi
      show Function.update s.mount m'.mountpoint (some root) i = some r
      rw [Function.update_of_ne hne, hi]
  | @mountUnlock t m' rc hpc hheld =>
    simp only [Event.thread, hpc] at hphase hm
    obtain ⟨rfl, hrc⟩ := hphase
    exact hquiet hm hpc (q := .releaseRef (.mountpoint m'.rootDir rc) m'.mountpoint) rfl
      ⟨rfl, rfl, hrc⟩ (by simp) hframe (fun hq => hq.elim) id
  | lockAgain hpc | getRootDir hpc | pathTooLong hpc | lookupInode hpc | found hpc | badName hpc
  | notDir hpc | nextName hpc | wait hpc | mark hpc | miss hpc | hit hpc | nextChild hpc
  | unlockDirFailed hpc | unlockDir hpc | lookupUnlock hpc | mountRootDo hpc
  | mountRootUnlock hpc =>
    -- such a thread was not on its way to mount
    simp only [Event.thread, hpc] at hphase
    exact hphase.elim

omit [DecidableEq T] in
/-- Before the race. -/
theorem inRace_start (htype : s₀.type mountpoint = .dir) (hnone : s₀.mount mountpoint = none)
    (halone : ∀ t u, (s₀.pc t).Mounting mountpoint → (s₀.pc u).Mounting mountpoint → t = u) :
    InRace s₀ mountpoint s₀ := by
  have hwon : ∀ t, ¬Won s₀ s₀ mountpoint [] t := by
    rintro t ⟨⟨m, hm, -⟩, hcode | ⟨i, hi⟩⟩
    · -- no thread that is still on its way has a code
      cases hpc : s₀.pc t <;> simp_all [Pc.AtMount, Pc.code]
    · cases hi
  refine ⟨[], ⟨rfl, htype, fun t m hm => ?_, fun t i rc hr => absurd hr List.not_mem_nil⟩,
    halone, fun _ _ => hnone, fun t u ht => absurd ht (hwon t), fun t ht => absurd ht (hwon t)⟩
  have hat := hm.1
  cases hpc : s₀.pc t <;> simp_all [Pc.AtMount, Pc.InMount]

omit [DecidableEq T] in
theorem Racing.mountedOnce (h : Racing s₀ mountpoint new s) (hx : Exclusive s₀ mountpoint new s) :
    MountedOnce s₀ mountpoint new := by
  have hwon : ∀ t i, .mount t i 0 ∈ new → Won s₀ s mountpoint new t := by
    intro t i hr
    obtain ⟨-, -, m, hm, -⟩ := h.records t i 0 hr
    exact ⟨⟨m, hm⟩, .inr ⟨i, hr⟩⟩
  exact ⟨fun t u i j ht hu => hx.once t u (hwon t i ht) (hwon u j hu),
    fun t i rc hr => (h.records t i rc hr).2.1, fun t i rc hr => (h.records t i rc hr).2.2⟩

/-- From every state in which threads have come to one directory with nothing mounted on it, and in
every interleaving of their steps: if at the start at most one of them has looked at the mount
field, no thread looks at it while another is between its look and its store, and the drivers
answer, then at most one of them succeeds, the others get `EEXIST` with their references released,
and no mount field that is set is set again. -/
theorem mountedOnce_of_checksAlone {tr : List (State T × Event T)} (hr : Run Step s₀ tr s)
    (htype : s₀.type mountpoint = .dir) (hnone : s₀.mount mountpoint = none)
    (htr : ∀ p ∈ tr, (∃ m, s₀.OnMountpoint mountpoint p.2.thread m) ∧ p.2.Continues)
    (halone : ∀ t u, (s₀.pc t).Mounting mountpoint → (s₀.pc u).Mounting mountpoint → t = u)
    (hC : ∀ p ∈ tr, p.1.ChecksAlone p.2) (hD : ∀ p ∈ tr, p.1.DriverSettles p.2) :
    (∃ new, s.returned = new ++ s₀.returned ∧ MountedOnce s₀ mountpoint new) ∧
      ∀ p ∈ tr, ∀ s', Step p.1 p.2 s' → p.1.KeepsMounts s' := by
  let C : State T → Event T → Prop := fun s e =>
    ((∃ m, s₀.OnMountpoint mountpoint e.thread m) ∧ e.Continues) ∧ s.ChecksAlone e ∧
      s.DriverSettles e
  have hCs : ∀ p ∈ tr, C p.1 p.2 := fun p hp => ⟨htr p hp, hC p hp, hD p hp⟩
  have hstep : ∀ s e s', InRace s₀ mountpoint s → C s e → Step s e s' →
      InRace s₀ mountpoint s' ∧ s.KeepsMounts s' := by
    rintro s e s' hin ⟨⟨hm, he⟩, hC, hD⟩ hs
    exact hin.step hm he hC hD hs
  have hvisited : ∀ s' ∈ visited tr s, InRace s₀ mountpoint s' := by
    intro s' hs'
    exact hr.invariant_of_visited hCs (inRace_start htype hnone halone)
      (fun s e s' hin hC hs => (hstep s e s' hin hC hs).1) hs'
  refine ⟨?_, fun p hp s' hs' => ?_⟩
  · obtain ⟨new, h, hx⟩ := hvisited s (by simp)
    exact ⟨new, h.returned, h.mountedOnce hx⟩
  · have hin := hvisited p.1 (mem_visited.mpr (.inl ⟨p.2, hp⟩))
    exact (hstep p.1 p.2 s' hin (hCs p hp) hs').2

/-! ## Two threads -/

instance (e : Event T) : Decidable e.Continues := by
  induction e using Event.casesOn <;> unfold Event.Continues <;> infer_instance

instance [Fintype T] (e : Event T) : Decidable (s.ChecksAlone e) := by
  induction e using Event.casesOn <;> unfold ChecksAlone
  case resume t =>
    dsimp only
    generalize s.pc t = p
    induction p using Pc.casesOn <;> infer_instance
  all_goals infer_instance

instance (rc : ℤ) : Decidable (Settles rc) :=
  inferInstanceAs (Decidable (_ ∨ _))

instance (e : Event T) : Decidable (s.DriverSettles e) := by
  induction e using Event.casesOn <;> unfold DriverSettles
  case doMount t r =>
    dsimp only
    generalize s.pc t = p
    induction p using Pc.casesOn <;> infer_instance
  all_goals infer_instance

/-- Two threads have come to the directory 1, a child of the root directory. -/
def twoMounting : State (Fin 2) :=
  { initial with
    driverList := [pfat]
    rootDir := some 0
    parent := fun i => if i = 1 then some 0 else none
    refcount := fun i => if i = 0 then 5 else if i = 1 then 2 else 0
    pc := fun _ => .mountCheck { fsDriverName := pfat, rootDir := 0, mountpoint := 1 } }

theorem twoMounting_onMountpoint (t : Fin 2) : ∃ m, twoMounting.OnMountpoint 1 t m :=
  ⟨{ fsDriverName := pfat, rootDir := 0, mountpoint := 1 }, rfl, rfl⟩

/-- What a thread does when it has found the mount field null. -/
def goesOn (t : Fin 2) (inst : InstanceId) (root : InodeId) : List (Event (Fin 2)) :=
  .resume t :: .doMount t ⟨(0, some inst), (0, some root)⟩ :: List.replicate 16 (.resume t)

/-- The second thread looks when the first one has returned. -/
theorem mountedOnce_oneByOne :
    ∃ tr s new, Run Step twoMounting tr s ∧ .mount 0 (some 1) 0 ∈ s.returned ∧
      .mount 1 (some 1) eexist ∈ s.returned ∧ s.returned = new ++ twoMounting.returned ∧
      MountedOnce twoMounting 1 new := by
  have hruns : (runs Enabled exec twoMounting
      (.resume 0 :: goesOn 0 0 2 ++ List.replicate 12 (.resume 1))).any fun r =>
        (∀ p ∈ r.1, p.2.Continues) ∧ (∀ p ∈ r.1, p.1.ChecksAlone p.2) ∧
          (∀ p ∈ r.1, p.1.DriverSettles p.2) ∧ .mount 0 (some 1) 0 ∈ r.2.returned ∧
          .mount 1 (some 1) eexist ∈ r.2.returned := by
    decide
  obtain ⟨tr, s, hr, he, hC, hD, hwon, hlost⟩ :=
    exists_run (P := fun tr (s : State (Fin 2)) =>
      (∀ p ∈ tr, p.2.Continues) ∧ (∀ p ∈ tr, p.1.ChecksAlone p.2) ∧
        (∀ p ∈ tr, p.1.DriverSettles p.2) ∧ .mount 0 (some 1) 0 ∈ s.returned ∧
        .mount 1 (some 1) eexist ∈ s.returned) hruns
  obtain ⟨new, hnew, honce⟩ := (mountedOnce_of_checksAlone hr rfl rfl
    (fun p hp => ⟨twoMounting_onMountpoint _, he p hp⟩) (fun _ _ ht => ht.elim) hC hD).1
  exact ⟨tr, s, new, hr, hwon, hlost, hnew, honce⟩

/-- Both threads look before either of them stores: both succeed, and the second store puts its
root directory in the place of the first. -/
theorem not_mountedOnce_race :
    ∃ tr s, Run Step twoMounting tr s ∧
      (∀ p ∈ tr, (∃ m, twoMounting.OnMountpoint 1 p.2.thread m) ∧ p.2.Continues) ∧
      (∀ p ∈ tr, p.1.DriverSettles p.2) ∧
      (∃ p ∈ tr, p.1.mount 1 = some 2) ∧ s.mount 1 = some 3 ∧
      ∀ new, s.returned = new ++ twoMounting.returned → ¬MountedOnce twoMounting 1 new := by
  have hruns : (runs Enabled exec twoMounting
      (.resume 0 :: .resume 1 :: goesOn 0 0 2 ++ goesOn 1 1 3)).any fun r =>
        (∀ p ∈ r.1, p.2.Continues) ∧ (∀ p ∈ r.1, p.1.DriverSettles p.2) ∧
          (∃ p ∈ r.1, p.1.mount 1 = some 2) ∧ r.2.mount 1 = some 3 ∧
          .mount 0 (some 1) 0 ∈ r.2.returned ∧ .mount 1 (some 1) 0 ∈ r.2.returned := by
    decide
  obtain ⟨tr, s, hr, he, hD, hfirst, hlast, hwon, hwon'⟩ :=
    exists_run (P := fun tr (s : State (Fin 2)) =>
      (∀ p ∈ tr, p.2.Continues) ∧ (∀ p ∈ tr, p.1.DriverSettles p.2) ∧
        (∃ p ∈ tr, p.1.mount 1 = some 2) ∧ s.mount 1 = some 3 ∧
        .mount 0 (some 1) 0 ∈ s.returned ∧ .mount 1 (some 1) 0 ∈ s.returned) hruns
  refine ⟨tr, s, hr, fun p hp => ⟨twoMounting_onMountpoint _, he p hp⟩, hD, hfirst, hlast,
    fun new hnew honce => ?_⟩
  rw [hnew, show twoMounting.returned = [] from rfl, List.append_nil] at hwon hwon'
  exact absurd (honce.once 0 1 _ _ hwon hwon') (by decide)

end State

end GeekOS.Vfs
