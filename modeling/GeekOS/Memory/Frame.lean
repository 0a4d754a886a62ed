import Mathlib.Data.Int.Notation
import Mathlib.Logic.Function.Basic
import Mathlib.Tactic.Common
import GeekOS.Library.Result

/-!
# Frames and the free list

`struct frame` of `mem.h`, and the functions of `mem.c` that take a frame off the free list and
put it back. A `struct frame *` is an element of a type `F` of entries of the frame table; the two
lists that are linked through a frame are lists of such entries.
-/

namespace GeekOS

open Result

/-- `frame_state_t`. -/
inductive FrameState
  | avail | kern | hw | unused | heap | kstack | vmPgcache
  deriving DecidableEq, Repr

/-- `page_content_t`. -/
inductive PageContent
  | pendingInit | failedInit | clean | dirty
  deriving DecidableEq, Repr

/-- The frame has the data of its page. -/
def PageContent.IsValid (c : PageContent) : Prop := c = .clean ∨ c = .dirty

/-- `u32_t page_num`. -/
abbrev PageNum := BitVec 32

/-- `struct frame`, its link fields aside. -/
structure Frame where
  state : FrameState := .avail
  vmPgcachePageNum : PageNum := 0
  refcount : ℤ := 0
  content : PageContent := .pendingInit
  errc : ℤ := 0
  deriving DecidableEq, Repr

/-- `s_framelist` and `s_freelist`. -/
structure FramePool (F : Type) where
  frame : F → Frame
  freelist : List F

namespace FramePool

variable {F : Type} [DecidableEq F] {ε : Type}

/-- Store the fields of a frame. -/
def setFrame (pool : FramePool F) (f : F) (frame : Frame) : FramePool F :=
  { pool with frame := Function.update pool.frame f frame }

@[simp]
theorem setFrame_frame (pool : FramePool F) (f : F) (frame : Frame) :
    (pool.setFrame f frame).frame = Function.update pool.frame f frame := rfl

@[simp]
theorem setFrame_freelist (pool : FramePool F) (f : F) (frame : Frame) :
    (pool.setFrame f frame).freelist = pool.freelist := rfl

/-- `mem_alloc_frame`, and `none` where the thread has to wait for a frame. -/
def memAllocFrame (pool : FramePool F) (initialState : FrameState)
    (initialRefcount : ℤ) : Option (F × FramePool F) :=
  match pool.freelist with
  | [] => none
  | f :: rest =>
      let frame := { pool.frame f with state := initialState, refcount := initialRefcount }
      some (f, { pool.setFrame f frame with freelist := rest })

/-- `mem_free_frame`, which halts with `e` if the frame still has references. -/
def memFreeFrame (pool : FramePool F) (e : ε) (f : F) : Except ε (FramePool F) := do
  require ((pool.frame f).refcount = 0) e
  let frame := { pool.frame f with state := .avail }
  pure { pool.setFrame f frame with freelist := pool.freelist ++ [f] }

/-- The pool with the frame at the end of its free list. -/
def freed (pool : FramePool F) (f : F) : FramePool F :=
  { pool.setFrame f { pool.frame f with state := .avail } with freelist := pool.freelist ++ [f] }

theorem memFreeFrame_ok {e : ε} {f : F} {pool : FramePool F} (h : (pool.frame f).refcount = 0) :
    pool.memFreeFrame e f = .ok (pool.freed f) := by
  rw [memFreeFrame, require, if_pos h]
  rfl

end FramePool

end GeekOS
