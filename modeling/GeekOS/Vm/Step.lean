import GeekOS.Library.Execution
import GeekOS.Vm.State

/-!
# The steps of a page cache

The functions of `vm.c`, cut where they give up the lock, and the step relation of the threads
that run them. `vm_lock_page` is `lockPage` up to the point where it has found the page or not,
`found` from there on where it has, and `vm_alloc_and_page_in` in its two parts where it has not.
-/

namespace GeekOS.Vm

open Result Threads

variable {T F : Type} [DecidableEq T] [DecidableEq F]

namespace State

variable (s : State T F)

/-- `struct frame` of a frame. -/
abbrev frame (f : F) : Frame := s.pool.frame f

/-- Store the fields of a frame. -/
def setFrame (f : F) (frame : Frame) : State T F :=
  { s with pool := s.pool.setFrame f frame }

/-- `frame->refcount++`. -/
def referenced (f : F) : State T F :=
  s.setFrame f { s.frame f with refcount := (s.frame f).refcount + 1 }

/-- `frame->refcount--`. -/
def dereferenced (f : F) : State T F :=
  s.setFrame f { s.frame f with refcount := (s.frame f).refcount - 1 }

/-- Move a thread. -/
def goto (t : T) (p : Pc F) : State T F :=
  { s with pc := Function.update s.pc t p }

/-- `mutex_lock(&obj->lock)`. -/
def mutexLock (t : T) : Except Fault (State T F) := do
  let owner ← Threads.lock Fault.mutexFree t s.lock
  pure { s with lock := owner }

/-- `mutex_unlock(&obj->lock)`. -/
def mutexUnlock (t : T) : Except Fault (State T F) := do
  let owner ← Threads.unlock Fault.mutexHeld t s.lock
  pure { s with lock := owner }

/-- `cond_wait(&obj->cond, &obj->lock)`, up to the point where the thread sleeps. -/
def condWait (t : T) : Except Fault (State T F) := do
  let owner ← Threads.unlock Fault.mutexHeld t s.lock
  pure { s with lock := owner, cond := s.cond ++ [t] }

/-- `cond_broadcast(&obj->cond)`. -/
def condBroadcast : State T F := { s with cond := [] }

/-- `vm_release_frame_ref`. -/
def vmReleaseFrameRef (t : T) (f : F) : Except Fault (State T F) := do
  require (s.lock = some t) .mutexHeld
  require (0 < (s.frame f).refcount) .refcountPositive
  require ((s.frame f).content ≠ .pendingInit) .contentKnown
  let s := s.dereferenced f
  -- the last one to use a frame that could not be loaded gives it back
  if (s.frame f).refcount = 0 ∧ (s.frame f).content = .failedInit then
    let pool ← s.pool.memFreeFrame Fault.refcountZero f
    pure { s with pool, pagelist := s.pagelist.erase f }
  else pure s

/-- The end of `vm_lock_page`: unlock the cache and return `rc` to the caller. -/
def vmReturn (t : T) (r : Request) (f : F) (pageinRc : Option ℤ) (filled : Option PageNum)
    (rc : ℤ) (stored : Option F) : Except Fault (State T F) := do
  let s ← s.mutexUnlock t
  let granted := stored.toList.map fun g => { thread := t, pageNum := r.pageNum, frame := g }
  pure { s.goto t .idle with
    granted := granted ++ s.granted
    returned :=
      { thread := t, pageNum := r.pageNum, frame := f, pageinRc, filled, rc, stored } ::
        s.returned }

/-- `vm_lock_page` behind its search where the frame `f` is on the page list: the test of the loop
around `cond_wait`, and what follows it. -/
def found (t : T) (r : Request) (f : F) : Except Fault (State T F) := do
  match (s.frame f).content with
  | .pendingInit =>
      -- behind the wait the thread takes the lock again and comes back to this test
      let s ← s.condWait t
      pure (s.goto t (.condWait r f))
  | .failedInit =>
      -- no function of the kernel stores `errc`
      let rc := (s.frame f).errc
      let s' ← s.vmReleaseFrameRef t f
      s'.vmReturn t r f (s.pageinRc f) (s.filled f) rc none
  | .clean | .dirty =>
      -- `rc` has not been assigned
      s.vmReturn t r f (s.pageinRc f) (s.filled f) r.rc (some f)

/-- The search of `vm_lock_page`. -/
def lookup (n : PageNum) : Option F :=
  s.pagelist.find? fun f => (s.frame f).vmPgcachePageNum = n

/-- `vm_lock_page` from its `mutex_lock` on. -/
def vmLockPage (t : T) (r : Request) : Except Fault (State T F) := do
  let s ← s.mutexLock t
  match s.lookup r.pageNum with
  | none => pure (s.goto t (.allocFrame r))
  | some f =>
      -- lock the frame
      let s := s.referenced f
      s.found t r f

/-- `vm_alloc_and_page_in` up to `vm_pagein`, when the free list is not empty. -/
def vmAllocAndPageIn (t : T) (r : Request) (f : F) (pool : FramePool F) :
    Except Fault (State T F) := do
  -- the new frame goes to the page list, but its page number is not stored
  require (s.lock = some t) .mutexHeld
  let s : State T F := { s with pool, pagelist := s.pagelist ++ [f] }
  let s := s.setFrame f { s.frame f with content := .pendingInit }
  let s ← s.mutexUnlock t
  pure { s.goto t (.pagein r f) with
    pageOf := Function.update s.pageOf f r.pageNum
    pageinRc := Function.update s.pageinRc f none
    filled := Function.update s.filled f none }

/-- `vm_alloc_and_page_in` behind `vm_pagein`, and the end of `vm_lock_page`. -/
def vmPagedIn (t : T) (r : Request) (f : F) (rc : ℤ) : Except Fault (State T F) := do
  let s ← s.mutexLock t
  -- whoever waits for the frame is woken before the lock is released
  let content : PageContent := if rc = 0 then .clean else .failedInit
  let s := s.setFrame f { s.frame f with content }
  let s := s.condBroadcast
  if rc = 0 then s.vmReturn t r f (s.pageinRc f) (s.filled f) rc (some f)
  else do
    let s' ← s.vmReleaseFrameRef t f
    s'.vmReturn t r f (s.pageinRc f) (s.filled f) rc none

/-- `vm_unlock_page`. -/
def vmUnlockPage (t : T) (g : Grant T F) : Except Fault (State T F) := do
  let s ← s.mutexLock t
  require (0 < (s.frame g.frame).refcount) .refcountPositive
  let s := s.dereferenced g.frame
  let s ← s.mutexUnlock t
  pure { s with granted := s.granted.erase g }

/-- A thread goes through its next section. -/
def resume (t : T) : Except Fault (State T F) :=
  match s.pc t with
  | .lockPage r => s.vmLockPage t r
  | .allocFrame r =>
      match s.pool.memAllocFrame .vmPgcache 1 with
      -- `mem_alloc_frame` sleeps until a frame is freed: the section does not start before
      | none => pure s
      | some (f, pool) => s.vmAllocAndPageIn t r f pool
  | .pagedIn r f rc => s.vmPagedIn t r f rc
  | .condWait r f => do
      let s ← s.mutexLock t
      s.found t r f
  | .idle | .pagein _ _ => pure s

/-- Carry out an event. -/
def exec : Event T F → Except Fault (State T F)
  | .call t r => pure (s.goto t (.lockPage r))
  | .resume t => s.resume t
  | .readPage t rc =>
      match s.pc t with
      | .pagein r f =>
          let filled := if rc = 0 then some r.pageNum else none
          pure { s.goto t (.pagedIn r f rc) with
            pageinRc := Function.update s.pageinRc f (some rc)
            filled := Function.update s.filled f filled }
      | _ => pure s
  | .unlockPage t g => s.vmUnlockPage t g
  | .otherAlloc initialState initialRefcount =>
      match s.pool.memAllocFrame initialState initialRefcount with
      | none => pure s
      | some (f, pool) => pure { s with pool, others := f :: s.others }
  | .otherStore f refcount content =>
      pure (s.setFrame f { s.frame f with refcount, content })
  | .otherFree f => do
      let pool ← s.pool.memFreeFrame Fault.refcountZero f
      pure { s with pool, others := s.others.erase f }

/-- The thread can go through its next section: it does not have to wait for the lock, for a
frame, or for a broadcast. -/
def CanResume (t : T) : Prop :=
  match s.pc t with
  | .lockPage _ | .pagedIn _ _ _ => Ready t s.lock
  | .allocFrame _ => s.pool.freelist ≠ []
  | .condWait _ _ => t ∉ s.cond ∧ Ready t s.lock
  | .idle | .pagein _ _ => False

instance (t : T) : Decidable (s.CanResume t) := by
  unfold CanResume
  split <;> infer_instance

/-- The event can come now. A thread unlocks a page that is locked, once, and another part of the
kernel frees a frame of its own without references. -/
def Enabled : Event T F → Prop
  | .call t _ => s.pc t = .idle
  | .resume t => s.CanResume t
  | .readPage t _ => (s.pc t).InPagein
  | .unlockPage t g => s.pc t = .idle ∧ Ready t s.lock ∧ g ∈ s.granted
  | .otherAlloc _ _ => s.pool.freelist ≠ []
  | .otherStore f _ _ => f ∈ s.others
  | .otherFree f => f ∈ s.others ∧ (s.frame f).refcount = 0

instance (e : Event T F) : Decidable (s.Enabled e) := by
  cases e <;> unfold Enabled <;> infer_instance

/-- One step of the threads. -/
def Step : State T F → Event T F → State T F → Prop := TransitionSystem.stepOf Enabled exec

/-- `vm_pagecache_create` has just made the cache: no thread is in it. The fields of the frames
are what their earlier use has left there. -/
structure Initial : Prop where
  lock : s.lock = none
  cond : s.cond = []
  pagelist : s.pagelist = []
  pc : ∀ t, s.pc t = .idle
  granted : s.granted = []
  returned : s.returned = []
  nodup : (s.pool.freelist ++ s.others).Nodup

/-- A new cache over frames that are all free and as the boot has cleared them. -/
def fresh (freelist : List F) : State T F where
  pool := { frame := fun _ => {}, freelist }
  lock := none
  cond := []
  pagelist := []
  pc _ := .idle
  others := []
  pageOf _ := 0
  pageinRc _ := none
  filled _ := none
  granted := []
  returned := []

omit [DecidableEq T] [DecidableEq F] in
theorem fresh_initial {freelist : List F} (h : freelist.Nodup) :
    (fresh freelist : State T F).Initial :=
  ⟨rfl, rfl, rfl, fun _ => rfl, rfl, rfl, by simpa [fresh] using h⟩

attribute [local instance] TransitionSystem.neZero_two in
/-- Two threads ask for page 0, the first one loads it, and `read_page` returns `EIO`: the second
one waits for the page and finds that it could not be loaded. -/
def failedPage : List (Event (Fin 2) (Fin 2)) :=
  [.call 0 { pageNum := 0, rc := 0 }, .resume 0, .resume 0,
    .call 1 { pageNum := 0, rc := 0 }, .resume 1,
    .readPage 0 (-6), .resume 0, .resume 1]

attribute [local instance] TransitionSystem.neZero_one in
/-- A thread loads page 0, unlocks it and finds it when it asks for it again. -/
def loadedPage : List (Event (Fin 1) (Fin 1)) :=
  [.call 0 { pageNum := 0, rc := 0 }, .resume 0, .resume 0, .readPage 0 0, .resume 0,
    .unlockPage 0 { thread := 0, pageNum := 0, frame := 0 },
    .call 0 { pageNum := 0, rc := 0 }, .resume 0]

end State

end GeekOS.Vm
