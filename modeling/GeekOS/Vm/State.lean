import GeekOS.Library.Threads
import GeekOS.Memory.Frame

/-!
# The state of a page cache

A `struct vm_pagecache` of `vm.h` with the frames it shares with the rest of the kernel, and the
threads that call `vm_lock_page` and `vm_unlock_page` on it.

A function is cut into the sections in which the calling thread has the lock of the cache. `Pc`
lists where a thread can be between two of them: at a `mutex_lock`, in `mem_alloc_frame` with the
lock, in `read_page` without it, or in `cond_wait`. The lock and the condition are taken as
`synch.c` provides them: a thread that comes to a locked mutex waits until it is free, and a
sleeper comes back from `cond_wait` behind a broadcast.

The last fields of `State` are history. No function of the kernel reads them.
-/

namespace GeekOS.Vm

/-- What halts the kernel: an assertion that fails. -/
inductive Fault
  /-- `!MUTEX_IS_HELD(mutex)`. -/
  | mutexFree
  /-- `MUTEX_IS_HELD(mutex)`. -/
  | mutexHeld
  /-- `frame->refcount > 0`. -/
  | refcountPositive
  /-- `frame->refcount == 0`. -/
  | refcountZero
  /-- `frame->content != PAGE_PENDING_INIT`. -/
  | contentKnown
  deriving DecidableEq, Repr

/-- A call of `vm_lock_page`: its page number, and what its variable `rc`, which has no
initialiser, holds before a value is stored there. -/
structure Request where
  pageNum : PageNum
  rc : ℤ
  deriving DecidableEq, Repr

/-- Where a thread is. -/
inductive Pc (F : Type)
  /-- Outside of the functions of the cache. -/
  | idle
  /-- At the `mutex_lock` of `vm_lock_page`. -/
  | lockPage (r : Request)
  /-- In `mem_alloc_frame`, with the lock. -/
  | allocFrame (r : Request)
  /-- In `vm_pagein`. -/
  | pagein (r : Request) (f : F)
  /-- At the `mutex_lock` of `vm_alloc_and_page_in`. -/
  | pagedIn (r : Request) (f : F) (rc : ℤ)
  /-- In `cond_wait`. -/
  | condWait (r : Request) (f : F)
  deriving DecidableEq, Repr

namespace Pc

variable {F : Type}

/-- The thread has allocated the frame and is loading it. -/
def Loads (f : F) : Pc F → Prop
  | pagein _ g | pagedIn _ g _ => g = f
  | _ => False

/-- The thread waits for the contents of the frame. -/
def Awaits (f : F) : Pc F → Prop
  | condWait _ g => g = f
  | _ => False

/-- The thread is in `read_page`. -/
def InPagein : Pc F → Prop
  | pagein _ _ => True
  | _ => False

instance (p : Pc F) : Decidable p.InPagein := by
  cases p <;> unfold InPagein <;> infer_instance

instance [DecidableEq F] (f : F) (p : Pc F) : Decidable (p.Loads f) := by
  cases p <;> unfold Loads <;> infer_instance

instance [DecidableEq F] (f : F) (p : Pc F) : Decidable (p.Awaits f) := by
  cases p <;> unfold Awaits <;> infer_instance

/-- The references a thread has on a frame while it loads it or waits for it. -/
def refs [DecidableEq F] (f : F) (p : Pc F) : ℕ :=
  if p.Loads f ∨ p.Awaits f then 1 else 0

variable {f g : F} {p : Pc F}

/-- A thread loads one frame at a time. -/
theorem loads_unique (hf : p.Loads f) (hg : p.Loads g) : f = g := by
  cases p with
  | pagein | pagedIn => exact hf.symm.trans hg
  | _ => exact hf.elim

/-- A thread has a reference on the one frame that it loads or waits for. -/
theorem refs_eq [DecidableEq F] (h : p.Loads f ∨ p.Awaits f) (g : F) :
    p.refs g = if f = g then 1 else 0 := by
  cases p with
  | pagein _ f' | pagedIn _ f' _ | condWait _ f' =>
    obtain rfl : f' = f := by simpa [Loads, Awaits] using h
    simp [refs, Loads, Awaits]
  | _ => simp [Loads, Awaits] at h

end Pc

/-- A page that a thread has locked. -/
structure Grant (T F : Type) where
  thread : T
  pageNum : PageNum
  frame : F
  deriving DecidableEq, Repr

/-- A call of `vm_lock_page` that has returned. -/
structure Return (T F : Type) where
  thread : T
  pageNum : PageNum
  /-- The frame that the call loaded or found on the page list. -/
  frame : F
  /-- What the page-in of that frame had returned. -/
  pageinRc : Option ℤ
  /-- The page with whose contents `read_page` had filled it. -/
  filled : Option PageNum
  rc : ℤ
  /-- What the call stored in `*p_frame`. -/
  stored : Option F
  deriving DecidableEq, Repr

/-- The cache, the frames and the threads. -/
structure State (T F : Type) where
  pool : FramePool F
  /-- The thread that has `obj->lock`. -/
  lock : Option T
  /-- The wait queue of `obj->cond`. -/
  cond : List T
  pagelist : List F
  pc : T → Pc F
  /-- The frames that other parts of the kernel have allocated. -/
  others : List F
  /-- History: the page number for which `vm_alloc_and_page_in` last allocated the frame. -/
  pageOf : F → PageNum
  /-- History: what the page-in of the frame has returned since. -/
  pageinRc : F → Option ℤ
  /-- History: the page with whose contents `read_page` has filled the frame since. -/
  filled : F → Option PageNum
  /-- History: the pages that are locked. -/
  granted : List (Grant T F)
  /-- History: the calls of `vm_lock_page` that have returned. -/
  returned : List (Return T F)

/-- What can happen next. -/
inductive Event (T F : Type)
  /-- A thread calls `vm_lock_page`. -/
  | call (t : T) (r : Request)
  /-- It goes through its next section. -/
  | resume (t : T)
  /-- `read_page` returns `rc` to it. -/
  | readPage (t : T) (rc : ℤ)
  /-- It calls `vm_unlock_page` on a page that is locked. -/
  | unlockPage (t : T) (g : Grant T F)
  /-- Another part of the kernel calls `mem_alloc_frame`. -/
  | otherAlloc (initialState : FrameState) (initialRefcount : ℤ)
  /-- It stores fields of a frame of its own that is not page-cache identity. -/
  | otherStore (f : F) (refcount : ℤ) (content : PageContent)
  /-- It calls `mem_free_frame` on a frame of its own without references. -/
  | otherFree (f : F)
  deriving DecidableEq, Repr

end GeekOS.Vm
