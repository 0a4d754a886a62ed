import GeekOS.Vm.Step

/-!
# What a step of a page cache does

The state after each function of `vm.c` written out, for the case that its assertions hold, and
`Transition`: the steps of the threads with their preconditions and the states they lead to. Every
invariant of the cache is a case analysis over `Transition`.
-/

namespace GeekOS.Vm

open Result

variable {T F : Type} [DecidableEq T] [DecidableEq F]

namespace State

variable (s : State T F)

/-! ## The states behind the functions -/

/-- The frame is taken off the page list and put on the free list. -/
def freed (f : F) : State T F :=
  { s with pool := s.pool.freed f, pagelist := s.pagelist.erase f }

/-- The state behind `vm_release_frame_ref`. -/
def released (f : F) : State T F :=
  if ((s.dereferenced f).frame f).refcount = 0 ∧
      ((s.dereferenced f).frame f).content = .failedInit then
    (s.dereferenced f).freed f
  else s.dereferenced f

/-- The state behind the return of a call of `vm_lock_page`. -/
def returns (t : T) (r : Request) (f : F) (pageinRc : Option ℤ) (filled : Option PageNum)
    (rc : ℤ) (stored : Option F) : State T F :=
  { s.goto t .idle with
    lock := none
    granted :=
      (stored.toList.map fun g => { thread := t, pageNum := r.pageNum, frame := g }) ++ s.granted
    returned :=
      { thread := t, pageNum := r.pageNum, frame := f, pageinRc, filled, rc, stored } ::
        s.returned }

/-- The state behind the allocation of a frame for a page. -/
def allocated (t : T) (r : Request) (f : F) (rest : List F) : State T F :=
  { s.goto t (.pagein r f) with
    pool :=
      { s.pool.setFrame f
          { s.frame f with state := .vmPgcache, refcount := 1, content := .pendingInit } with
        freelist := rest }
    pagelist := s.pagelist ++ [f]
    lock := none
    pageOf := Function.update s.pageOf f r.pageNum
    pageinRc := Function.update s.pageinRc f none
    filled := Function.update s.filled f none }

/-- The state behind the store of the outcome of a page-in, and the broadcast. -/
def initialised (f : F) (content : PageContent) : State T F :=
  { s.setFrame f { s.frame f with content } with cond := [] }

/-! ## The functions, when their assertions hold -/

section Functions

variable {s} {t : T} {f : F}

omit [DecidableEq F] in
theorem mutexLock_ok (h : s.lock ≠ some t) :
    s.mutexLock t = .ok { s with lock := some t } := by
  have hl : Threads.lock Fault.mutexFree t s.lock = .ok (some t) := by simpa using h
  rw [mutexLock, hl]
  rfl

omit [DecidableEq F] in
theorem mutexUnlock_ok (h : s.lock = some t) :
    s.mutexUnlock t = .ok { s with lock := none } := by
  have hl : Threads.unlock Fault.mutexHeld t s.lock = .ok none := by simpa using h
  rw [mutexUnlock, hl]
  rfl

omit [DecidableEq F] in
theorem condWait_ok (h : s.lock = some t) :
    s.condWait t = .ok { s with lock := none, cond := s.cond ++ [t] } := by
  have hl : Threads.unlock Fault.mutexHeld t s.lock = .ok none := by simpa using h
  rw [condWait, hl]
  rfl

theorem vmReleaseFrameRef_ok (h : s.lock = some t) (hpos : 0 < (s.frame f).refcount)
    (hc : (s.frame f).content ≠ .pendingInit) :
    s.vmReleaseFrameRef t f = .ok (s.released f) := by
  simp only [vmReleaseFrameRef, require, if_pos h, if_pos hpos, if_pos hc, ok_bind]
  unfold released
  by_cases hlast : ((s.dereferenced f).frame f).refcount = 0 ∧
      ((s.dereferenced f).frame f).content = .failedInit
  · rw [if_pos hlast, if_pos hlast, FramePool.memFreeFrame_ok hlast.1]
    rfl
  · rw [if_neg hlast, if_neg hlast]
    rfl

omit [DecidableEq F] in
theorem vmReturn_ok {r : Request} {pageinRc : Option ℤ} {filled : Option PageNum} {rc : ℤ}
    {stored : Option F} (h : s.lock = some t) :
    s.vmReturn t r f pageinRc filled rc stored =
      .ok (s.returns t r f pageinRc filled rc stored) := by
  rw [vmReturn, mutexUnlock_ok h]
  rfl

omit [DecidableEq T] in
theorem released_lock (l : Option T) :
    ({ s with lock := l } : State T F).released f = { s.released f with lock := l } := by
  unfold released
  by_cases hlast : ((s.dereferenced f).frame f).refcount = 0 ∧
      ((s.dereferenced f).frame f).content = .failedInit
  · rw [if_pos hlast]
    exact if_pos hlast
  · rw [if_neg hlast]
    exact if_neg hlast

theorem released_goto (p : Pc F) :
    (s.goto t p).released f = (s.released f).goto t p := by
  unfold released
  by_cases hlast : ((s.dereferenced f).frame f).refcount = 0 ∧
      ((s.dereferenced f).frame f).content = .failedInit
  · rw [if_pos hlast]
    exact if_pos hlast
  · rw [if_neg hlast]
    exact if_neg hlast

end Functions

/-- The thread comes to a frame on the page list for its request, at once or behind `cond_wait`,
and has a reference on it. -/
inductive Comes (t : T) (r : Request) (f : F) : State T F → Prop
  | hit (hpc : s.pc t = .lockPage r) (hf : s.lookup r.pageNum = some f) :
      Comes t r f (s.referenced f)
  | woken (hpc : s.pc t = .condWait r f) (hcond : t ∉ s.cond) : Comes t r f s

omit [DecidableEq T] in
/-- Coming to a frame changes no more than its reference count. -/
theorem Comes.eq {s s₁ : State T F} {t : T} {r : Request} {f : F} (h : s.Comes t r f s₁) :
    ∃ pool : FramePool F, s₁ = { s with pool } ∧ pool.freelist = s.pool.freelist ∧
      ∀ g, (pool.frame g).content = (s.frame g).content ∧ (pool.frame g).errc = (s.frame g).errc := by
  cases h with
  | hit =>
    refine ⟨_, rfl, rfl, fun g => ?_⟩
    rcases eq_or_ne g f with rfl | hne
    · simp [frame]
    · simp [frame, hne]
  | woken => exact ⟨s.pool, rfl, rfl, fun g => ⟨rfl, rfl⟩⟩

/-- The steps of the threads. -/
inductive Transition : Event T F → State T F → Prop
  | call {t : T} {r : Request} (hpc : s.pc t = .idle) :
      Transition (.call t r) (s.goto t (.lockPage r))
  /-- The page is not on the page list. -/
  | miss {t : T} {r : Request} (hlock : s.lock = none) (hpc : s.pc t = .lockPage r)
      (hf : s.lookup r.pageNum = none) :
      Transition (.resume t) { s.goto t (.allocFrame r) with lock := some t }
  /-- It is, and is not loaded yet. -/
  | wait {t : T} {r : Request} {f : F} {s₁ : State T F} (hlock : s.lock = none)
      (hs₁ : s.Comes t r f s₁) (hc : (s₁.frame f).content = .pendingInit) :
      Transition (.resume t)
        { s₁.goto t (.condWait r f) with lock := none, cond := s₁.cond ++ [t] }
  /-- It could not be loaded. -/
  | failed {t : T} {r : Request} {f : F} {s₁ : State T F} (hlock : s.lock = none)
      (hs₁ : s.Comes t r f s₁) (hc : (s₁.frame f).content = .failedInit)
      (hpos : 0 < (s₁.frame f).refcount) :
      Transition (.resume t)
        ((s₁.released f).returns t r f (s₁.pageinRc f) (s₁.filled f) (s₁.frame f).errc none)
  /-- It is loaded. -/
  | granted {t : T} {r : Request} {f : F} {s₁ : State T F} (hlock : s.lock = none)
      (hs₁ : s.Comes t r f s₁) (hc : (s₁.frame f).content.IsValid) :
      Transition (.resume t) (s₁.returns t r f (s₁.pageinRc f) (s₁.filled f) r.rc (some f))
  | alloc {t : T} {r : Request} {f : F} {rest : List F} (hlock : s.lock = some t)
      (hpc : s.pc t = .allocFrame r) (hfree : s.pool.freelist = f :: rest) :
      Transition (.resume t) (s.allocated t r f rest)
  | readPage {t : T} {r : Request} {f : F} {rc : ℤ} (hpc : s.pc t = .pagein r f) :
      Transition (.readPage t rc)
        { s.goto t (.pagedIn r f rc) with
          pageinRc := Function.update s.pageinRc f (some rc)
          filled := Function.update s.filled f (if rc = 0 then some r.pageNum else none) }
  | loaded {t : T} {r : Request} {f : F} (hlock : s.lock = none)
      (hpc : s.pc t = .pagedIn r f 0) :
      Transition (.resume t)
        ((s.initialised f .clean).returns t r f (s.pageinRc f) (s.filled f) 0 (some f))
  | loadFailed {t : T} {r : Request} {f : F} {rc : ℤ} (hlock : s.lock = none)
      (hpc : s.pc t = .pagedIn r f rc) (hrc : rc ≠ 0) (hpos : 0 < (s.frame f).refcount) :
      Transition (.resume t)
        (((s.initialised f .failedInit).released f).returns t r f (s.pageinRc f) (s.filled f) rc
          none)
  | unlock {t : T} {g : Grant T F} (hlock : s.lock = none) (hg : g ∈ s.granted)
      (hpos : 0 < (s.frame g.frame).refcount) :
      Transition (.unlockPage t g)
        { s.dereferenced g.frame with lock := none, granted := s.granted.erase g }
  | otherAlloc {initialState : FrameState} {initialRefcount : ℤ} {f : F} {rest : List F}
      (hfree : s.pool.freelist = f :: rest) :
      Transition (.otherAlloc initialState initialRefcount)
        { s with
          pool :=
            { s.pool.setFrame f
                { s.frame f with state := initialState, refcount := initialRefcount } with
              freelist := rest }
          others := f :: s.others }
  | otherStore {f : F} {refcount : ℤ} {content : PageContent} (hf : f ∈ s.others) :
      Transition (.otherStore f refcount content)
        (s.setFrame f { s.frame f with refcount, content })
  | otherFree {f : F} (hf : f ∈ s.others) :
      Transition (.otherFree f) { s with pool := s.pool.freed f, others := s.others.erase f }

/-! ## No assertion fails -/

section Assertions

variable {s} {t : T} {r : Request} {f : F}

/-- What the sections of the functions need of the state to pass their assertions. -/
structure Asserts (s : State T F) : Prop where
  locked : ∀ t, s.lock = some t ↔ ∃ r, s.pc t = .allocFrame r
  loading : ∀ t r f rc, s.pc t = .pagedIn r f rc → 0 < (s.frame f).refcount
  awaited : ∀ t r f, s.pc t = .condWait r f → 0 < (s.frame f).refcount
  listed : ∀ f ∈ s.pagelist, 0 ≤ (s.frame f).refcount
  granted : ∀ g ∈ s.granted, 0 < (s.frame g.frame).refcount

/-- What follows the search in `vm_lock_page` passes its assertions. -/
theorem found_ok {s₁ : State T F} (h : s.lock = none) (hs₁ : s.Comes t r f s₁)
    (hpos : 0 < (s₁.frame f).refcount) :
    ∃ s', ({ s₁ with lock := some t } : State T F).found t r f = .ok s' ∧
      s.Transition (.resume t) s' := by
  unfold found
  split
  next hc =>
    refine ⟨_, ?_, .wait h hs₁ hc⟩
    rw [condWait_ok rfl]
    rfl
  next hc =>
    refine ⟨_, ?_, .failed h hs₁ hc hpos⟩
    have hne : (s₁.frame f).content ≠ .pendingInit := by
      rw [show (s₁.frame f).content = _ from hc]
      decide
    -- the frame has failed, so that `vm_release_frame_ref` finds its contents known
    have hrel := vmReleaseFrameRef_ok (s := { s₁ with lock := some t }) rfl hpos hne
    rw [hrel, ok_bind, released_lock, vmReturn_ok rfl]
    rfl
  next hc =>
    refine ⟨_, ?_, .granted h hs₁ (.inl hc)⟩
    rw [vmReturn_ok rfl]
    rfl
  next hc =>
    refine ⟨_, ?_, .granted h hs₁ (.inr hc)⟩
    rw [vmReturn_ok rfl]
    rfl

omit [DecidableEq T] [DecidableEq F] in
/-- Where a thread that is not in `mem_alloc_frame` can have the lock, the lock is free. -/
theorem Asserts.unlocked (h : s.Asserts) (hr : Threads.Ready t s.lock)
    (hpc : ∀ r, s.pc t ≠ .allocFrame r) : s.lock = none := by
  rcases hr with hr | hr
  · exact hr
  · obtain ⟨r, hr⟩ := (h.locked t).mp hr
    exact absurd hr (hpc r)

/-- An event that can come is carried out without a failing assertion. -/
theorem exec_ok (h : s.Asserts) {e : Event T F} (he : s.Enabled e) :
    ∃ s', s.exec e = .ok s' ∧ s.Transition e s' := by
  cases e with
  | call t r => exact ⟨_, rfl, .call he⟩
  | readPage t rc =>
    simp only [exec, Enabled] at he ⊢
    cases hpc : s.pc t with
    | pagein r f => exact ⟨_, rfl, .readPage hpc⟩
    | _ =>
      rw [hpc] at he
      exact he.elim
  | otherAlloc st rc =>
    unfold exec
    cases hfree : s.pool.freelist with
    | nil => exact absurd hfree he
    | cons f rest =>
      refine ⟨_, ?_, .otherAlloc hfree⟩
      simp [FramePool.memAllocFrame, hfree]
  | otherStore f rc c => exact ⟨_, rfl, .otherStore he⟩
  | otherFree f =>
    refine ⟨_, ?_, .otherFree he.1⟩
    simp only [exec]
    rw [FramePool.memFreeFrame_ok he.2]
    rfl
  | unlockPage t g =>
    obtain ⟨hpc, hr, hg⟩ := he
    have hlock := h.unlocked hr (by simp [hpc])
    have hpos := h.granted g hg
    refine ⟨_, ?_, .unlock hlock hg hpos⟩
    simp only [exec, vmUnlockPage]
    rw [mutexLock_ok (by simp [hlock]), ok_bind, require, if_pos hpos, ok_bind, mutexUnlock_ok rfl]
    rfl
  | resume t =>
    simp only [Enabled, CanResume] at he
    simp only [exec, resume]
    cases hpc : s.pc t with
    | idle => simp [hpc] at he
    | pagein => simp [hpc] at he
    | lockPage r =>
      rw [hpc] at he
      have hlock := h.unlocked he (by simp [hpc])
      simp only [vmLockPage]
      rw [mutexLock_ok (by simp [hlock]), ok_bind]
      have hlookup : ({ s with lock := some t } : State T F).lookup r.pageNum =
          s.lookup r.pageNum := rfl
      rw [hlookup]
      cases hf : s.lookup r.pageNum with
      | none => exact ⟨_, rfl, .miss hlock hpc hf⟩
      | some f =>
        -- the count is not negative, and the thread has just incremented it
        have hmem := List.mem_of_find?_eq_some hf
        refine found_ok hlock (.hit hpc hf) ?_
        have := h.listed f hmem
        simp only [referenced, setFrame, frame, FramePool.setFrame_frame, Function.update_self] at this ⊢
        omega
    | allocFrame r =>
      rw [hpc] at he
      cases hfree : s.pool.freelist with
      | nil => exact absurd hfree he
      | cons f rest =>
        -- only the thread in `mem_alloc_frame` has the lock between two sections
        have hlock := (h.locked t).mpr ⟨r, hpc⟩
        refine ⟨_, ?_, .alloc hlock hpc hfree⟩
        simp only [FramePool.memAllocFrame, hfree, vmAllocAndPageIn, require, if_pos hlock, ok_bind]
        rw [mutexUnlock_ok (by exact hlock)]
        simp [allocated, setFrame, goto, FramePool.setFrame, pure, Except.pure, frame]
    | pagedIn r f rc =>
      rw [hpc] at he
      have hlock := h.unlocked he (by simp [hpc])
      have hpos := h.loading t r f rc hpc
      simp only [vmPagedIn]
      rw [mutexLock_ok (by simp [hlock]), ok_bind]
      split
      next hrc =>
        subst hrc
        refine ⟨_, ?_, .loaded hlock hpc⟩
        rw [vmReturn_ok rfl]
        rfl
      next hrc =>
        refine ⟨_, ?_, .loadFailed hlock hpc hrc hpos⟩
        have hpos' : 0 < ((s.initialised f .failedInit).frame f).refcount := by
          simpa [initialised, setFrame, frame] using hpos
        have hc : ((s.initialised f .failedInit).frame f).content ≠ .pendingInit := by
          simp [initialised, setFrame, frame]
        -- the loader drops its own reference behind the broadcast
        have hrel := vmReleaseFrameRef_ok (s := { s.initialised f .failedInit with lock := some t })
          rfl hpos' hc
        rw [released_lock] at hrel
        refine (congrArg (· >>= _) hrel).trans ?_
        rw [ok_bind, vmReturn_ok rfl]
        rfl
    | condWait r f =>
      rw [hpc] at he
      have hlock := h.unlocked he.2 (by simp [hpc])
      simp only []
      rw [mutexLock_ok (by simp [hlock]), ok_bind]
      -- a woken thread tests the contents again, as one that has just found the frame
      exact found_ok hlock (.woken hpc he.1) (h.awaited t r f hpc)
end Assertions

end State

end GeekOS.Vm
