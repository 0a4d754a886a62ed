import GeekOS.Vfs.Mutex

/-!
# Mounting the root

`vfs_mount_root` as a whole, and sequences of calls of it. `vfs_do_mount` refuses a second root
while `s_root_instance` is set; no function sets it.

* `vfsMountRoot`, `run_of_mountRoots`: a call from its beginning to its end, and the run that a
  sequence of calls is;
* `DriverResults.code`: what a call returns;
* `MountsOnce`: at most one call succeeds, the later ones are refused, and a failing one leaves the
  root directory and the list of instances alone and closes the instance it has created;
* `mountsOnce_iff`: this is so if and only if the drivers see to it.
-/

namespace GeekOS.Vfs

open Result TransitionSystem

/-- A call of `vfs_mount_root`, with the results of the driver. -/
structure MountRoot (T : Type) where
  thread : T
  fsDriverName : Str
  results : DriverResults
  deriving DecidableEq, Repr

/-- Its events. -/
def MountRoot.events {T : Type} (c : MountRoot T) : List (Event T) :=
  [.mountRoot c.thread c.fsDriverName, .resume c.thread, .doMount c.thread c.results,
    .resume c.thread]

/-- A call that has returned. -/
structure Outcome (T : Type) where
  call : MountRoot T
  before : State T
  rc : ℤ
  after : State T

/-- What `vfs_do_mount` returns with these results of the driver, if nothing stands against it. -/
def DriverResults.code (r : DriverResults) (fsDriverName : Str) (driverList : List Str) : ℤ :=
  if fsDriverName ∈ driverList then
    if r.createInstance.1 = 0 then r.getRoot.1 else r.createInstance.1
  else einval

/-- The instance that the driver has created. -/
def DriverResults.created (r : DriverResults) (fsDriverName : Str) (driverList : List Str) :
    Option InstanceId :=
  if fsDriverName ∈ driverList then r.createInstance.2 else none

/-- The call leaves the root directory and the list of instances as they were, and the instance
that was created for it has been closed. -/
structure Outcome.Undone {T : Type} (o : Outcome T) : Prop where
  rootDir : o.after.rootDir = o.before.rootDir
  instList : o.after.instList = o.before.instList
  closed : o.after.closed =
    (o.call.results.created o.call.fsDriverName o.before.driverList).toList ++ o.before.closed

/-- At most one call succeeds, those after it return `EEXIST`, and a failing call changes nothing. -/
structure MountsOnce {T : Type} (outcomes : List (Outcome T)) : Prop where
  once : outcomes.countP (fun o => o.rc = 0) ≤ 1
  refused : outcomes.Pairwise fun o o' => o.rc = 0 → o'.rc = eexist
  undone : ∀ o ∈ outcomes, o.rc ≠ 0 → o.Undone

/-- The driver is registered, and both of its functions succeed. -/
def MountRoot.Succeeds {T : Type} (c : MountRoot T) (driverList : List Str) : Prop :=
  c.fsDriverName ∈ driverList ∧ c.results.createInstance.1 = 0 ∧ c.results.getRoot.1 = 0

/-- The driver is registered, and the one of its functions that fails returns `EEXIST`. -/
def MountRoot.Refused {T : Type} (c : MountRoot T) (driverList : List Str) : Prop :=
  c.fsDriverName ∈ driverList ∧ (c.results.createInstance.1 = eexist ∨
    c.results.createInstance.1 = 0 ∧ c.results.getRoot.1 = eexist)

theorem MountRoot.code_eq_zero {T : Type} {c : MountRoot T} {driverList : List Str} :
    c.results.code c.fsDriverName driverList = 0 ↔ c.Succeeds driverList := by
  unfold DriverResults.code MountRoot.Succeeds
  split
  · split <;> simp_all
  · simp_all [einval]

theorem MountRoot.code_eq_eexist {T : Type} {c : MountRoot T} {driverList : List Str} :
    c.results.code c.fsDriverName driverList = eexist ↔ c.Refused driverList := by
  unfold DriverResults.code MountRoot.Refused
  split
  · split <;> simp_all [eexist]
  · simp_all [einval, eexist]

/-- If none of the elements that meet `p` has another one behind it, there is one at most. -/
theorem countP_le_one {α : Type*} {p : α → Bool} {l : List α}
    (h : l.Pairwise fun a b => p a = true → ¬p b = true) : l.countP p ≤ 1 := by
  induction l with
  | nil => exact Nat.zero_le 1
  | cons a l ih =>
    obtain ⟨ha, hl⟩ := List.pairwise_cons.mp h
    by_cases hp : p a = true
    · rw [List.countP_cons_of_pos hp, List.countP_eq_zero.mpr fun b hb => ha b hb hp]
    · rw [List.countP_cons_of_neg hp]
      exact ih hl

namespace State

variable {T : Type} [DecidableEq T]

/-- `vfs_mount_root`. -/
def vfsMountRoot (s : State T) (c : MountRoot T) : Except Fault (ℤ × State T) := do
  let s ← s.mutexLock c.thread
  let (rc, rootDir, s) ← s.vfsDoMount c.thread c.fsDriverName none c.results
  let s := if rc = 0 then { s with rootDir } else s
  let s ← s.mutexUnlock c.thread
  pure (rc, s.record (.mountRoot c.thread rc))

/-- Calls one after the other. -/
def mountRoots (s : State T) : List (MountRoot T) → Except Fault (List (Outcome T) × State T)
  | [] => pure ([], s)
  | c :: calls => do
      let (rc, s') ← s.vfsMountRoot c
      let (outcomes, last) ← s'.mountRoots calls
      pure ({ call := c, before := s, rc, after := s' } :: outcomes, last)

/-- No mutex is locked, and `s_root_instance` is null. -/
structure AtRest (s : State T) : Prop where
  fsMutex : s.fsMutex = none
  driverListMutex : s.driverListMutex = none
  rootInstance : s.rootInstance = none

variable {s s' : State T} {c : MountRoot T} {rc : ℤ}

/-- What `vfs_do_mount` returns and what it does, if `s_root_instance` is null. -/
theorem vfsDoMount_ok {t : T} {name : Str} {r : DriverResults} {root : Option InodeId}
    (hroot : s.rootInstance = none) (h : s.vfsDoMount t name none r = .ok (rc, root, s')) :
    rc = r.code name s.driverList ∧
      (rc = 0 → ∃ inst, s' = { s with instList := s.instList ++ [inst] }) ∧
      (rc ≠ 0 → s' = { s with closed := (r.created name s.driverList).toList ++ s.closed }) := by
  have hfailed : ∀ {rc' : ℤ} {inst : Option InstanceId} {dir : Option InodeId},
      s.doMountFailed rc' inst dir = .ok (rc, root, s') →
        rc = rc' ∧ s' = { s with closed := inst.toList ++ s.closed } := by
    intro rc' inst dir hfail
    obtain ⟨_, -, heq⟩ := bind_eq_ok.mp hfail
    cases inst <;> cases heq <;> exact ⟨rfl, rfl⟩
  obtain ⟨_, -, h⟩ := bind_eq_ok.mp h
  obtain ⟨_, -, h⟩ := bind_eq_ok.mp h
  -- the refusal of a second root, which `s_root_instance` decides
  rw [if_neg (by simp [hroot])] at h
  obtain ⟨found, hfind, h⟩ := bind_eq_ok.mp h
  have hfound := vfsFindFsDriver_ok hfind
  unfold DriverResults.code DriverResults.created
  -- with a driver of the name: its two functions, one after the other
  by_cases hdriver : name ∈ s.driverList
  · rw [if_pos hdriver] at hfound ⊢
    subst hfound
    simp only [if_pos hdriver] at h ⊢
    split at h
    next hrc =>
      obtain ⟨rfl, rfl⟩ := hfailed h
      exact ⟨(if_neg hrc).symm, fun h0 => absurd h0 hrc, fun _ => rfl⟩
    next hrc =>
      rw [if_pos (Decidable.not_not.mp hrc)]
      split at h
      · simp at h
      next inst hinst =>
        split at h
        next hroot' =>
          obtain ⟨rfl, rfl⟩ := hfailed h
          exact ⟨rfl, fun h0 => absurd h0 hroot', fun _ => by rw [hinst]⟩
        next hroot' =>
          cases h
          exact ⟨(Decidable.not_not.mp hroot').symm, fun _ => ⟨inst, rfl⟩, fun h0 => absurd rfl h0⟩
  · rw [if_neg hdriver] at hfound ⊢
    subst hfound
    obtain ⟨rfl, rfl⟩ := hfailed h
    -- no driver of the name: `EINVAL`, and no instance to close
    refine ⟨rfl, fun h0 => ?_, fun _ => by rw [if_neg hdriver]⟩
    cases h0

/-- `vfs_do_mount` refuses everything if `s_root_instance` is set. -/
theorem vfsDoMount_refused {t : T} {name : Str} {r : DriverResults} {root : Option InodeId}
    (hroot : s.rootInstance ≠ none) (h : s.vfsDoMount t name none r = .ok (rc, root, s')) :
    rc = eexist := by
  obtain ⟨_, -, h⟩ := bind_eq_ok.mp h
  obtain ⟨_, -, h⟩ := bind_eq_ok.mp h
  rw [if_pos ⟨rfl, hroot⟩] at h
  obtain ⟨_, -, heq⟩ := bind_eq_ok.mp h
  cases heq
  rfl

/-- What a call returns, and what it leaves behind. -/
theorem vfsMountRoot_ok (h₀ : s.AtRest) (h : s.vfsMountRoot c = .ok (rc, s')) :
    rc = c.results.code c.fsDriverName s.driverList ∧ s'.AtRest ∧ s'.driverList = s.driverList ∧
      (rc ≠ 0 → Outcome.Undone { call := c, before := s, rc, after := s' }) := by
  obtain ⟨s₁, hlock, h⟩ := bind_eq_ok.mp h
  obtain ⟨-, rfl⟩ := mutexLock_eq_ok.mp hlock
  obtain ⟨⟨rc', root, s₂⟩, hdo, h⟩ := bind_eq_ok.mp h
  obtain ⟨hcode, hsuccess, hfailure⟩ :=
    vfsDoMount_ok (s := { s with fsMutex := some c.thread }) h₀.rootInstance hdo
  obtain ⟨s₃, hunlock, h⟩ := bind_eq_ok.mp h
  obtain ⟨-, rfl⟩ := mutexUnlock_eq_ok.mp hunlock
  obtain ⟨rfl, rfl⟩ := Prod.mk.inj (pure_eq_ok.mp h)
  refine ⟨hcode, ?_⟩
  by_cases hrc : rc' = 0
  · obtain ⟨inst, rfl⟩ := hsuccess hrc
    simp only [if_pos hrc]
    exact ⟨⟨rfl, h₀.driverListMutex, h₀.rootInstance⟩, rfl, fun hne => absurd hrc hne⟩
  · obtain rfl := hfailure hrc
    simp only [if_neg hrc]
    exact ⟨⟨rfl, h₀.driverListMutex, h₀.rootInstance⟩, rfl, fun _ => ⟨rfl, rfl, rfl⟩⟩

variable {calls : List (MountRoot T)} {outcomes : List (Outcome T)}

/-- What a sequence of calls returns is in the results of the drivers. -/
theorem mountRoots_ok (h₀ : s.AtRest) (h : s.mountRoots calls = .ok (outcomes, s')) :
    outcomes.map (fun o => o.call) = calls ∧ ∀ o ∈ outcomes,
      o.rc = o.call.results.code o.call.fsDriverName s.driverList ∧ (o.rc ≠ 0 → o.Undone) := by
  induction calls generalizing s outcomes with
  | nil =>
    obtain ⟨rfl, rfl⟩ := Prod.mk.inj (pure_eq_ok.mp h)
    simp
  -- the first call leaves the state at rest, which is all that the next ones rely on
  | cons c calls ih =>
    obtain ⟨⟨rc, s₁⟩, hcall, h⟩ := bind_eq_ok.mp h
    obtain ⟨⟨outcomes₁, last⟩, hcalls, h⟩ := bind_eq_ok.mp h
    obtain ⟨rfl, rfl⟩ := Prod.mk.inj (pure_eq_ok.mp h)
    obtain ⟨hcode, hrest, hlist, hundone⟩ := vfsMountRoot_ok h₀ hcall
    obtain ⟨hmap, hall⟩ := ih hrest hcalls
    rw [hlist] at hall
    refine ⟨by rw [List.map_cons, hmap], ?_⟩
    intro o ho
    rcases List.mem_cons.mp ho with rfl | ho
    · exact ⟨hcode, hundone⟩
    · exact hall o ho

/-- The name of a driver. -/
def pfat : Str := letters ['p', 'f', 'a', 't']

/-- The boot has registered the driver. -/
def pfatRegistered : State (Fin 1) := { initial with driverList := [pfat] }

theorem pfatRegistered_atRest : pfatRegistered.AtRest := ⟨rfl, rfl, rfl⟩

attribute [local instance] neZero_one in
/-- A call whose driver succeeds. -/
def mountPfat (inst : InstanceId) (rootDir : InodeId) : MountRoot (Fin 1) :=
  ⟨0, pfat, ⟨(0, some inst), (0, some rootDir)⟩⟩

attribute [local instance] neZero_one in
/-- A call with an unknown name, one that succeeds, and one that its driver refuses. -/
def refusedCalls : List (MountRoot (Fin 1)) :=
  [⟨0, [], ⟨(0, none), (0, none)⟩⟩, mountPfat 0 0, ⟨0, pfat, ⟨(eexist, none), (0, none)⟩⟩]

/-- Where the threads are does not matter to `vfs_do_mount`. -/
theorem vfsDoMount_goto {t u : T} {p : Pc} {name : Str} {m : Option InodeId} {r : DriverResults} :
    (s.goto u p).vfsDoMount t name m r =
      (s.vfsDoMount t name m r).map fun x => (x.1, x.2.1, x.2.2.goto u p) := by
  -- the cleanup does not look at the threads
  have hfailed : ∀ rc inst dir, (s.goto u p).doMountFailed rc inst dir =
      (s.doMountFailed rc inst dir).map fun x => (x.1, x.2.1, x.2.2.goto u p) := by
    intro rc inst dir
    unfold doMountFailed require
    split
    · cases inst <;> rfl
    · rfl
  rw [vfsDoMount, vfsDoMount, map_chain]
  refine bind_congr fun _ => ?_
  rw [map_chain]
  refine bind_congr fun _ => ?_
  -- from here on the two calls take the same branches
  by_cases hroot : m = none ∧ s.rootInstance ≠ none
  · have hroot' : m = none ∧ (s.goto u p).rootInstance ≠ none := hroot
    rw [if_pos hroot, if_pos hroot']
    exact hfailed _ _ _
  · have hroot' : ¬(m = none ∧ (s.goto u p).rootInstance ≠ none) := hroot
    rw [if_neg hroot, if_neg hroot', map_chain]
    refine bind_congr fun found => ?_
    cases found with
    | error rc => exact hfailed _ _ _
    | ok driver =>
      by_cases hrc : r.createInstance.1 ≠ 0
      · simp only [if_pos hrc]
        exact hfailed _ _ _
      · simp only [if_neg hrc]
        cases r.createInstance.2 with
        | none => rfl
        | some inst =>
          by_cases hrc' : r.getRoot.1 ≠ 0
          · simp only [if_pos hrc']
            exact hfailed _ _ _
          · simp only [if_neg hrc']
            rfl

theorem goto_goto {t : T} {p q : Pc} : (s.goto t p).goto t q = s.goto t q := by
  simp [State.goto]

theorem goto_self {t : T} {p : Pc} (h : s.pc t = p) : s.goto t p = s := by
  rw [State.goto, ← h, Function.update_eq_self]

@[simp]
theorem goto_pc_self {t : T} {p : Pc} : (s.goto t p).pc t = p := by
  simp [State.goto]

/-- A call is a run of its events. -/
theorem run_of_vfsMountRoot (h₀ : s.AtRest) (hidle : s.pc c.thread = .idle)
    (h : s.vfsMountRoot c = .ok (rc, s')) :
    s'.pc = s.pc ∧ ∃ tr, Run Step s tr s' ∧ tr.map Prod.snd = c.events := by
  obtain ⟨t, name, r⟩ := c
  obtain ⟨s₁, hlock, h⟩ := bind_eq_ok.mp h
  obtain ⟨-, rfl⟩ := mutexLock_eq_ok.mp hlock
  obtain ⟨⟨rc', root, s₂⟩, hdo, h⟩ := bind_eq_ok.mp h
  obtain ⟨s₃, hunlock, h⟩ := bind_eq_ok.mp h
  obtain ⟨hheld, rfl⟩ := mutexUnlock_eq_ok.mp hunlock
  obtain ⟨rfl, rfl⟩ := Prod.mk.inj (pure_eq_ok.mp h)
  have hpc : s₂.pc = s.pc := by
    obtain ⟨-, hsuccess, hfailure⟩ :=
      vfsDoMount_ok (s := { s with fsMutex := some t }) h₀.rootInstance hdo
    by_cases hrc : rc' = 0
    · obtain ⟨inst, rfl⟩ := hsuccess hrc
      rfl
    · rw [hfailure hrc]
  -- the call, the section up to `mutex_lock`, the driver, and the section behind it
  have h₁ : Step s (.mountRoot t name) (s.goto t (.mountRootLock name)) := ⟨hidle, rfl⟩
  have h₂ : Step (s.goto t (.mountRootLock name)) (.resume t)
      (State.goto { s with fsMutex := some t } t (.mountRootDo name)) := by
    refine ⟨⟨by simp, by simp [Pc.inDriver], by simp [Asleep], fun _ => .inl h₀.fsMutex⟩, ?_⟩
    have hlock' : (s.goto t (.mountRootLock name)).mutexLock t =
        .ok (State.goto { s with fsMutex := some t } t (.mountRootLock name)) :=
      mutexLock_eq_ok.mpr ⟨by rw [State.goto, h₀.fsMutex]; simp, rfl⟩
    simp only [exec, resume, goto_pc_self]
    rw [hlock', ok_bind, goto_goto]
    rfl
  let f : State T → State T := fun s => if rc' = 0 then { s with rootDir := root } else s
  have h₃ : Step (State.goto { s with fsMutex := some t } t (.mountRootDo name)) (.doMount t r)
      ((f s₂).goto t (.mountRootUnlock rc')) := by
    refine ⟨by simp [Enabled, AtDoMount], ?_⟩
    simp only [exec, goto_pc_self]
    rw [mountRootDo, vfsDoMount_goto, hdo]
    simp only [f]
    by_cases hrc : rc' = 0
    · rw [if_pos hrc]
      simp only [Except.map, ok_bind, if_pos hrc]
      exact congrArg Except.ok (goto_goto (s := { s₂ with rootDir := root }))
    · rw [if_neg hrc]
      simp only [Except.map, ok_bind, if_neg hrc, goto_goto]
      rfl
  have h₄ : Step ((f s₂).goto t (.mountRootUnlock rc')) (.resume t)
      ((State.goto { f s₂ with fsMutex := none } t .idle).record (.mountRoot t rc')) := by
    refine ⟨⟨by simp, by simp [Pc.inDriver], by simp [Asleep], by simp [Pc.locks]⟩, ?_⟩
    have hunlock' : ((f s₂).goto t (.mountRootUnlock rc')).mutexUnlock t =
        .ok (State.goto { f s₂ with fsMutex := none } t (.mountRootUnlock rc')) :=
      mutexUnlock_eq_ok.mpr ⟨hheld, rfl⟩
    simp only [exec, resume, goto_pc_self]
    rw [hunlock', ok_bind, goto_goto]
    rfl
  have hpcf : (f s₂).pc = s.pc := by
    simp only [f]
    split <;> exact hpc
  have hlast : State.goto { f s₂ with fsMutex := none } t .idle = { f s₂ with fsMutex := none } :=
    goto_self (by rw [← hidle, ← hpcf])
  rw [hlast] at h₄
  exact ⟨hpcf, _, (((Run.nil s).snoc h₁).snoc h₂).snoc h₃ |>.snoc h₄, rfl⟩

/-- A sequence of calls is a run of their events. -/
theorem run_of_mountRoots {calls : List (MountRoot T)} {outcomes : List (Outcome T)}
    (h₀ : s.AtRest) (hidle : ∀ t, s.pc t = .idle) (h : s.mountRoots calls = .ok (outcomes, s')) :
    ∃ tr, Run Step s tr s' ∧ tr.map Prod.snd = calls.flatMap MountRoot.events := by
  induction calls generalizing s outcomes with
  | nil =>
    obtain ⟨rfl, rfl⟩ := Prod.mk.inj (pure_eq_ok.mp h)
    exact ⟨[], .nil s, rfl⟩
  | cons c calls ih =>
    obtain ⟨⟨rc, s₁⟩, hcall, h⟩ := bind_eq_ok.mp h
    obtain ⟨⟨outcomes₁, last⟩, hcalls, h⟩ := bind_eq_ok.mp h
    obtain ⟨rfl, rfl⟩ := Prod.mk.inj (pure_eq_ok.mp h)
    obtain ⟨-, hrest, -⟩ := vfsMountRoot_ok h₀ hcall
    obtain ⟨hpc, tr, hr, htr⟩ := run_of_vfsMountRoot h₀ (hidle c.thread) hcall
    obtain ⟨tr', hr', htr'⟩ := ih hrest (fun t => by rw [hpc, hidle]) hcalls
    exact ⟨tr ++ tr', hr.append hr', by rw [List.map_append, htr, htr', List.flatMap_cons]⟩

/-- No step sets `s_root_instance`. -/
theorem Transition.rootInstance_eq {e : Event T} (h : s.Transition e s') :
    s'.rootInstance = s.rootInstance := by
  cases h with
  | mountDo hpc hdo | mountRootDo hpc hdo => cases hdo <;> rfl
  | getRootDir hpc =>
    unfold vfsGetRootDir
    split <;> rfl
  | pathTooLong hpc hlen | lookupUnlock hpc hheld =>
    unfold State.returnLookup
    split <;> rfl
  | lockAgain hpc hfree =>
    unfold State.returnGetRootDir
    split <;> rfl
  | @adjusted t c delta hpc => cases c <;> rfl
  | @releaseNull t c hpc | @releaseUnlock t c i hpc hheld => cases c <;> rfl
  | mountCheck hpc =>
    unfold State.mountCheck
    split
    · rfl
    · split <;> rfl
  | _ => rfl

/-- After the boot the threads are at rest whenever all of them are outside of `vfs.c`. -/
theorem atRest_of_reachable (h : Reachable Step (initial : State T) s)
    (hidle : ∀ t, s.pc t = .idle) : s.AtRest := by
  have hlocked : s.Locked := h.invariant initial_locked fun _ _ _ h hs => h.transition hs.transition
  refine ⟨?_, hlocked.driverList, ?_⟩
  · rw [Option.eq_none_iff_forall_ne_some]
    intro t ht
    have hholds := (hlocked.held t).mp ht
    rw [hidle] at hholds
    cases hholds
  · exact h.invariant (I := fun s => s.rootInstance = none) rfl fun _ _ _ h hs =>
      hs.transition.rootInstance_eq.trans h

end State

end GeekOS.Vfs
