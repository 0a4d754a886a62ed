import Mathlib.Data.Int.Notation
import Mathlib.Logic.Function.Basic
import Mathlib.Tactic.Common
import GeekOS.Library.Result

/-!
# Threads, queues and the state of the thread module

The data of `thread.h`, `process.h`, `stat.h` and `scheduler.h`, and the global variables of
`thread.c`. A `struct thread *` is a `ThreadId`: the identity of one allocation, never used for
a second one. `threads` holds the records, with the `struct process` of a thread inside its
record. What has been given back to the allocator is listed in `freed`, and every access to a
record goes through `Sched.deref` or `Sched.derefProcess`, which fail on a freed one.

A failed `KASSERT` prints a message and halts the machine, so an operation returns
`Except Fault`: a `Fault` names the assertion that halted the kernel, or the memory that was
accessed although it is not allocated.

The last fields of `Sched` are history. No function of the kernel reads them.
-/

namespace GeekOS

/-- `struct thread *`, and the null pointer left out. -/
abbrev ThreadId := ℕ

/-- `struct mutex *`. -/
abbrev MutexId := ℕ

/-- `struct condition *`. -/
abbrev ConditionId := ℕ

/-- `struct blockdev_req *`. -/
abbrev RequestId := ℕ

/-- `thread_state_t`. -/
inductive ThreadState
  | new | ready | running | waiting | exited | killed
  deriving DecidableEq, Repr

/-- `thread_mode_t`. -/
inductive ThreadMode
  | attached | detached
  deriving DecidableEq, Repr

/-- `scheduler_t`. -/
inductive SchedulerKind
  | fcfs | sjf | priority | rr
  deriving DecidableEq, Repr

/-- `DEFAULT_PRIORITY`. -/
def defaultPriority : ℤ := 100

/-- `struct job`, its code aside. -/
structure Job where
  cpuBurst : ℤ
  priority : ℤ
  deriving DecidableEq, Repr

/-- `struct time_stat`. -/
structure TimeStat where
  arrival : ℕ := 0
  firstResponse : ℕ := 0
  running : ℕ := 0
  termination : ℕ := 0
  deriving DecidableEq, Repr

/-- `struct process`. `mem_alloc` fills a new one with zeroes. -/
structure Process where
  pid : ℕ := 0
  priority : ℤ := 0
  time : TimeStat := {}
  deriving DecidableEq, Repr

/-- `struct thread`. The queue of its joiners is `WaitQueue.thread`. -/
structure Thread where
  numTicks : ℕ := 0
  parent : Option ThreadId := none
  process : Process := {}
  state : ThreadState := .new
  exitcode : ℤ := 0
  refcount : ℕ := 0
  deriving DecidableEq, Repr

/-- The queues in which a thread can wait. -/
inductive WaitQueue
  /-- `s_heap_waitqueue` of `mem.c`. -/
  | heap
  /-- `s_frame_waitqueue` of `mem.c`. -/
  | frame
  /-- `s_waitqueue`, defined in `workqueue.c` and declared again in `keyboard.h`: one queue for
  the workqueue thread and for the threads that wait for a key. -/
  | work
  /-- `thread->waitqueue`. -/
  | thread (t : ThreadId)
  /-- `mutex->waitqueue`. -/
  | mutex (m : MutexId)
  /-- `cond->waitqueue`. -/
  | cond (c : ConditionId)
  /-- `req->waitqueue`. -/
  | request (r : RequestId)
  deriving DecidableEq, Repr

/-- The thread queues of the kernel. -/
inductive QueueId
  /-- `s_runqueue`. -/
  | runqueue
  /-- `s_newqueue`. -/
  | newqueue
  | wait (q : WaitQueue)
  deriving DecidableEq, Repr

/-- What `mem_alloc` and `mem_alloc_frame` hand out for one thread. -/
inductive Object
  | process (t : ThreadId)
  | stack (t : ThreadId)
  | thread (t : ThreadId)
  deriving DecidableEq, Repr

/-- The assertions of the modelled functions. -/
inductive Assertion
  /-- `list->head != 0` in `thread_queue_remove_first`. -/
  | listHead (q : QueueId)
  /-- `thread->state == THREAD_RUNNING` in `thread_relinquish_cpu`. -/
  | stateRunning
  /-- `thread_queue_is_empty(&s_newqueue)` at the end of `merge_new_with_runnable`. -/
  | newqueueEmpty
  /-- `thread->refcount > 0` in `thread_detach` and `thread_not_running`. -/
  | refcount
  /-- `g_current == child->parent` in `thread_join` and `wait_for_children`, and the same test
  in `thread_not_running`. -/
  | parent
  /-- `thread->state == THREAD_EXITED || thread->state == THREAD_KILLED` in `thread_destroy`. -/
  | destroyed
  /-- `!g_preemption` in `thread_park` and in the two halves of `synch.c`. -/
  | preemption
  /-- `!MUTEX_IS_HELD(mutex)` in `mutex_lock_imp`. -/
  | mutexFree
  /-- `MUTEX_IS_HELD(mutex)` in `mutex_unlock_imp` and `cond_wait`. -/
  | mutexHeld
  deriving DecidableEq, Repr

/-- Why an operation did not finish. -/
inductive Fault
  /-- The assertion failed and the kernel halted. -/
  | assertion (a : Assertion)
  /-- The memory accessed is not allocated. -/
  | invalidAccess (o : Object)
  deriving DecidableEq, Repr

/-- `KASSERT`. -/
abbrev kassert (p : Prop) [Decidable p] (a : Assertion) : Except Fault Unit :=
  Result.require p (.assertion a)

/-- The global variables of the thread module. -/
structure Sched where
  threads : ThreadId → Option Thread
  /-- The identity the next allocation of a thread record gets. -/
  nextThread : ThreadId
  gCurrent : ThreadId
  queue : QueueId → List ThreadId
  gScheduler : SchedulerKind
  gPreemption : Bool
  gNeedReschedule : Bool
  gNumticks : ℕ
  gQuantum : ℕ
  /-- The counter inside `gen_pid`. -/
  pid : ℕ
  gNumThreads : ℕ
  /-- History: the objects given back to the allocator. -/
  freed : List Object
  /-- History: the number of insertions into a queue so far. -/
  clock : ℕ
  /-- History: the value of `clock` when a thread was last put into a queue. -/
  stamp : ThreadId → ℕ
  /-- History: the threads in the order in which `thread_next_runnable` chose them. -/
  dispatched : List ThreadId

namespace Sched

variable (s : Sched)

/-- Access to the record of a thread. -/
def deref (t : ThreadId) : Except Fault Thread :=
  match s.threads t with
  | some th => if .thread t ∈ s.freed then .error (.invalidAccess (.thread t)) else .ok th
  | none => .error (.invalidAccess (.thread t))

/-- Access to `thread->process`. -/
def derefProcess (t : ThreadId) : Except Fault Process := do
  let th ← s.deref t
  if .process t ∈ s.freed then .error (.invalidAccess (.process t)) else .ok th.process

/-- The priority under which a thread is queued. -/
def priority (t : ThreadId) : ℤ :=
  match s.threads t with
  | some th => th.process.priority
  | none => 0

/-- Store a record. -/
def setThread (t : ThreadId) (th : Thread) : Sched :=
  { s with threads := Function.update s.threads t (some th) }

/-- Store the contents of a queue. -/
def setQueue (q : QueueId) (l : List ThreadId) : Sched :=
  { s with queue := Function.update s.queue q l }

/-- Store the contents `l` of a queue after `t` was put into it. -/
def enqueue (q : QueueId) (l : List ThreadId) (t : ThreadId) : Sched :=
  { s.setQueue q l with
    clock := s.clock + 1
    stamp := Function.update s.stamp t s.clock }

/-- Give an object back to the allocator. -/
def free (o : Object) : Sched := { s with freed := o :: s.freed }

@[simp] theorem setThread_threads (t : ThreadId) (th : Thread) :
    (s.setThread t th).threads = Function.update s.threads t (some th) := rfl
@[simp] theorem setThread_queue (t : ThreadId) (th : Thread) :
    (s.setThread t th).queue = s.queue := rfl
@[simp] theorem setThread_gCurrent (t : ThreadId) (th : Thread) :
    (s.setThread t th).gCurrent = s.gCurrent := rfl
@[simp] theorem setThread_freed (t : ThreadId) (th : Thread) :
    (s.setThread t th).freed = s.freed := rfl
@[simp] theorem setQueue_threads (q : QueueId) (l : List ThreadId) :
    (s.setQueue q l).threads = s.threads := rfl
@[simp] theorem setQueue_queue (q : QueueId) (l : List ThreadId) :
    (s.setQueue q l).queue = Function.update s.queue q l := rfl
@[simp] theorem setQueue_gCurrent (q : QueueId) (l : List ThreadId) :
    (s.setQueue q l).gCurrent = s.gCurrent := rfl
@[simp] theorem setQueue_freed (q : QueueId) (l : List ThreadId) :
    (s.setQueue q l).freed = s.freed := rfl
@[simp] theorem enqueue_threads (q : QueueId) (l : List ThreadId) (t : ThreadId) :
    (s.enqueue q l t).threads = s.threads := rfl
@[simp] theorem enqueue_queue (q : QueueId) (l : List ThreadId) (t : ThreadId) :
    (s.enqueue q l t).queue = Function.update s.queue q l := rfl
@[simp] theorem enqueue_gCurrent (q : QueueId) (l : List ThreadId) (t : ThreadId) :
    (s.enqueue q l t).gCurrent = s.gCurrent := rfl
@[simp] theorem enqueue_freed (q : QueueId) (l : List ThreadId) (t : ThreadId) :
    (s.enqueue q l t).freed = s.freed := rfl

variable {s}

theorem deref_eq_ok {t : ThreadId} {th : Thread} :
    s.deref t = .ok th ↔ s.threads t = some th ∧ .thread t ∉ s.freed := by
  unfold deref
  split
  next th' h => split <;> simp_all
  next h => simp [h]

theorem derefProcess_eq_ok {t : ThreadId} {p : Process} :
    s.derefProcess t = .ok p ↔
      ∃ th, s.threads t = some th ∧ .thread t ∉ s.freed ∧ .process t ∉ s.freed ∧
        th.process = p := by
  simp only [derefProcess, Result.bind_eq_ok, deref_eq_ok]
  constructor
  · rintro ⟨th, ⟨hth, hf⟩, h⟩
    split at h
    · simp at h
    · exact ⟨th, hth, hf, ‹_›, by simpa using h⟩
  · rintro ⟨th, hth, hf, hp, rfl⟩
    exact ⟨th, ⟨hth, hf⟩, by simp [hp]⟩

theorem deref_eq_error {t : ThreadId} {f : Fault} :
    s.deref t = .error f ↔
      (s.threads t = none ∨ .thread t ∈ s.freed) ∧ f = .invalidAccess (.thread t) := by
  unfold deref
  split
  next th' h => split <;> simp_all [@eq_comm _ _ f]
  next h => simp [h, @eq_comm _ _ f]

theorem derefProcess_eq_error {t : ThreadId} {f : Fault} :
    s.derefProcess t = .error f →
      (s.threads t = none ∨ .thread t ∈ s.freed ∨ .process t ∈ s.freed) ∧
        ∃ o, f = .invalidAccess o := by
  simp only [derefProcess, Result.bind_eq_error, deref_eq_error]
  rintro (⟨h, rfl⟩ | ⟨th, hth, h⟩)
  · exact ⟨by tauto, _, rfl⟩
  · split at h
    · exact ⟨.inr (.inr ‹_›), _, (by simpa using h.symm)⟩
    · simp at h

theorem priority_of_threads {t : ThreadId} {th : Thread} (h : s.threads t = some th) :
    s.priority t = th.process.priority := by
  simp [priority, h]

end Sched

end GeekOS
