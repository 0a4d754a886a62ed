import GeekOS.Thread.Operations

/-!
# The state of the kernel

The thread module together with the modules built on it: the mutexes and conditions of
`synch.c`, the list of `workqueue.c`, the key buffer of `keyboard.c` and the simulation of
`simulation.c`. Each thread has a stack of acts: the atomic sections it still has to go through
in the functions it has called, the next one first. A thread with no act runs its own code.

A function of the kernel is cut into acts where another thread or an interrupt handler can get
between two of its statements. `Act.interruptible` tells whether interrupts are enabled when an
act is about to start; an act that starts by coming back from `thread_wait` finds them disabled.
-/

namespace GeekOS

/-- `mutex->state`. -/
inductive MutexState
  | unlocked | locked
  deriving DecidableEq, Repr

/-- `struct mutex`. Its wait queue is `WaitQueue.mutex`. -/
@[ext]
structure Mutex where
  state : MutexState := .unlocked
  owner : Option ThreadId := none
  deriving DecidableEq, Repr

/-- `struct workqueue_item`: the callback with its data. -/
inductive WorkItem
  | threadDestroy (t : ThreadId)
  | ramdiskHandleRequest (r : RequestId)
  deriving DecidableEq, Repr

/-- A key code, a `u16_t`. -/
abbrev Keycode := ℕ

/-- `QUEUE_SIZE`. A ring of so many entries holds one key less. -/
def queueSize : ℕ := 256

/-- The global variables of the modules, and the history of a run. -/
structure Kernel where
  sched : Sched
  mutex : MutexId → Mutex
  /-- The items from `s_workqueue_head` to `s_workqueue_tail`. -/
  workqueue : List WorkItem
  /-- The keys in `s_queue` from `s_queue_head` to `s_queue_tail`. -/
  keyQueue : List Keycode
  /-- `KEYB_IRQ` is masked. -/
  keybMasked : Bool
  /-- History: the exit code a thread passed to `thread_exit`. -/
  exitArg : ThreadId → Option ℤ
  /-- History: the threads whose destruction `thread_detach` has scheduled. -/
  scheduled : List ThreadId
  /-- History: the threads whose parent has given up its reference. -/
  joined : List ThreadId
  /-- History: what the calls of `thread_join` have returned. -/
  returned : List (ThreadId × ℤ)
  /-- History: the threads that have returned from `mutex_lock` or `cond_wait` with the mutex and
  have not called `mutex_unlock` or `cond_wait` on it since. -/
  holders : MutexId → List ThreadId
  /-- History: the threads woken by an unlock of the mutex that have neither taken it nor found it
  locked since. -/
  woken : MutexId → List ThreadId

/-- The two callers of `thread_wait_until` on a child. -/
inductive JoinCaller
  | threadJoin | waitForChildren
  deriving DecidableEq, Repr

/-- The callers of `mutex_lock_imp` and `mutex_unlock_imp`: `mutex_lock` and `mutex_unlock`, or
`cond_wait`. -/
inductive SynchCaller
  | mutex | cond (c : ConditionId)
  deriving DecidableEq, Repr

/-- The three allocations of `thread_create` and `thread_create_from_job`: the record of the thread,
its stack and its process. `slept` says that the thread has slept in the call of `mem_alloc` or
`mem_alloc_frame` that it is about to try again. -/
inductive Allocation
  | thread (slept : Bool)
  | stack (slept : Bool)
  | process (slept : Bool)
  deriving DecidableEq, Repr

namespace Allocation

/-- The same allocation, behind the thread's sleep. -/
def asleep : Allocation → Allocation
  | thread _ => thread true
  | stack _ => stack true
  | process _ => process true

/-- The allocation behind this one. -/
def next : Allocation → Option Allocation
  | thread _ => some (stack false)
  | stack _ => some (process false)
  | process _ => none

/-- The thread has slept in it. -/
def slept : Allocation → Bool
  | thread b | stack b | process b => b

end Allocation

/-- How far `thread_create_from_job` has come: the next statement that another thread or an
interrupt can notice. -/
inductive JobCreation
  | alloc (a : Allocation)
  /-- `gen_pid`. -/
  | pid
  /-- The tests of `g_scheduler`. -/
  | priority (pid : ℕ)
  /-- `thread_make_new`. -/
  | makeNew (pid : ℕ) (priority : ℤ)
  deriving DecidableEq, Repr

/-- `thread_create_from_job` starts. -/
abbrev JobCreation.start : JobCreation := .alloc (.thread false)

/-- The thread has slept in the allocation that it is about to try again. -/
def JobCreation.slept : JobCreation → Bool
  | alloc a => a.slept
  | _ => false

/-- The acts of `thread.c`. -/
inductive ThreadAct
  /-- The loop of `thread_idle`. -/
  | idle
  /-- The allocations of `thread_create`. -/
  | create (mode : ThreadMode) (a : Allocation)
  /-- It reads `g_numticks` for the arrival time. -/
  | createArrival (mode : ThreadMode)
  /-- It makes the thread runnable. -/
  | createRun (mode : ThreadMode) (arrival : ℕ)
  /-- Its call of `gen_pid`. -/
  | createGenPid (t : ThreadId)
  /-- It stores the pid. -/
  | createPid (t : ThreadId) (pid : ℕ)
  /-- It stores the priority. -/
  | createPriority (t : ThreadId)
  | createFromJob (job : Job) (mode : ThreadMode) (c : JobCreation)
  | merge
  | yield
  | wait (q : WaitQueue)
  | wakeup (q : WaitQueue)
  | wakeupOne (q : WaitQueue)
  | exit (exitcode : ℤ)
  /-- `thread_exit` behind its call of `thread_detach`. -/
  | exitFinish (exitcode : ℤ)
  /-- The assertion in front of `thread_wait_until`. -/
  | join (child : ThreadId) (caller : JoinCaller)
  /-- The test of `thread_wait_until`. -/
  | joinTest (child : ThreadId) (caller : JoinCaller)
  | joinReturn (child : ThreadId) (exitcode : ℤ)
  /-- The loop of `wait_for_children`. -/
  | waitForChildren (threads : List ThreadId)
  deriving DecidableEq, Repr

/-- The acts of `workqueue.c` and of the callbacks it runs. `slept` says that the thread has slept in
the function in which it is. -/
inductive WorkAct
  /-- The `mem_alloc` of `workqueue_schedule_work`. `iflag` tells whether interrupts were enabled
  when the function was called. -/
  | schedule (item : WorkItem) (iflag slept : Bool)
  /-- The atomic section of `workqueue_schedule_work`. -/
  | link (item : WorkItem) (iflag : Bool)
  /-- The loop of `workqueue_thread`. -/
  | loop (slept : Bool)
  | destroyProcess (t : ThreadId)
  | destroyStack (t : ThreadId)
  | destroyThread (t : ThreadId)
  | ramdiskHandleRequest (r : RequestId)
  /-- `mem_free(item)`. -/
  | freeItem
  deriving DecidableEq, Repr

/-- The acts of `keyboard.c`. -/
inductive KeyboardAct
  | readKey
  /-- The loop of `wait_for_key`. -/
  | waitForKey (slept : Bool)
  deriving DecidableEq, Repr

/-- The acts of `synch.c`. -/
inductive SynchAct
  /-- `mutex_lock` up to the call of `mutex_lock_imp`. -/
  | mutexLock (m : MutexId)
  /-- The assertions of `mutex_lock_imp`. -/
  | lockImp (m : MutexId) (caller : SynchCaller)
  /-- The test of its loop. -/
  | lockTest (m : MutexId) (caller : SynchCaller)
  /-- `thread_park` in its loop, up to the `thread_wait`. -/
  | lockPark (m : MutexId) (caller : SynchCaller)
  /-- The same `thread_park`, behind the `thread_wait`. -/
  | lockParked (m : MutexId) (caller : SynchCaller)
  /-- The store of `mutex_lock_imp` to the state. -/
  | lockState (m : MutexId) (caller : SynchCaller)
  /-- Its store to the owner. -/
  | lockOwner (m : MutexId) (caller : SynchCaller)
  /-- The end of `mutex_lock` or `cond_wait`. -/
  | lockReturn (m : MutexId) (caller : SynchCaller)
  /-- `mutex_unlock` up to the call of `mutex_unlock_imp`. -/
  | mutexUnlock (m : MutexId)
  /-- The assertions of `mutex_unlock_imp`. -/
  | unlockImp (m : MutexId) (caller : SynchCaller)
  /-- Its store to the state. -/
  | unlockState (m : MutexId) (caller : SynchCaller)
  /-- Its store to the owner. -/
  | unlockOwner (m : MutexId) (caller : SynchCaller)
  /-- Its test whether a thread waits. -/
  | unlockTest (m : MutexId) (caller : SynchCaller)
  /-- Its `thread_wakeup_one`. -/
  | unlockWake (m : MutexId) (caller : SynchCaller)
  /-- The end of `mutex_unlock`. -/
  | unlockReturn
  /-- `cond_wait` up to the call of `mutex_unlock_imp`. -/
  | condWait (c : ConditionId) (m : MutexId)
  /-- `thread_park` in `cond_wait`, up to the `thread_wait`. -/
  | condPark (c : ConditionId) (m : MutexId)
  /-- The same `thread_park`, behind the `thread_wait`. -/
  | condParked (c : ConditionId) (m : MutexId)
  | condSignal (c : ConditionId)
  | condBroadcast (c : ConditionId)
  deriving DecidableEq, Repr

/-- The acts of `simulation.c`, `scheduler.c` and `menu.c`, and those of `stat.c` and `timer.c`
that jobs call. -/
inductive SimulationAct
  /-- The stores of the menu to `g_scheduler` and `g_quantum`. -/
  | setScheduler (g : SchedulerKind) (quantum : ℕ)
  | runSimulation (simulation : List Job)
  /-- The loop of `long_term_scheduler`: the jobs left, the threads made so far, and how far the
  thread for the first job has come. -/
  | longTermScheduler (joblist : List Job) (threads : List ThreadId) (c : JobCreation)
  /-- The end of `run_simulation`. -/
  | simulationEnd
  | firstResponse
  /-- `busy_wait` up to its loop. -/
  | busyWait (ticks : ℕ)
  /-- The test of its loop. -/
  | busyWaiting (last ticks : ℕ)
  deriving DecidableEq, Repr

/-- An atomic section. -/
inductive Act
  | thread (a : ThreadAct)
  | work (a : WorkAct)
  | keyboard (a : KeyboardAct)
  | synch (a : SynchAct)
  | simulation (a : SimulationAct)
  deriving DecidableEq, Repr

namespace Act

/-- Interrupts are enabled when the act is about to start. -/
def interruptible : Act → Bool
  | .thread (.create _ a) => !a.slept
  | .thread (.createFromJob _ _ c) | .simulation (.longTermScheduler _ _ c) => !c.slept
  | .thread (.exitFinish _) | .thread (.joinTest _ _) => false
  | .work (.schedule _ iflag slept) => iflag && !slept
  | .work (.link _ iflag) => iflag
  | .work (.loop slept) => !slept
  | .keyboard (.waitForKey slept) => !slept
  | .synch (.lockParked _ _) | .synch (.condParked _ _) => false
  | _ => true

/-- The acts with which a function starts that a thread may call. -/
def isCall : Act → Bool
  | .thread (.create _ a) => a = .thread false
  | .thread (.createFromJob _ _ c) => c = .start
  | .thread .merge | .thread .yield | .thread (.wait _) | .thread (.wakeup _)
  | .thread (.wakeupOne _) | .thread (.exit _) | .thread (.join _ .threadJoin)
  | .thread (.waitForChildren _) => true
  | .work (.schedule (.ramdiskHandleRequest _) iflag slept) => iflag && !slept
  | .keyboard .readKey => true
  | .keyboard (.waitForKey slept) => !slept
  | .synch (.mutexLock _) | .synch (.mutexUnlock _) | .synch (.condWait _ _)
  | .synch (.condSignal _) | .synch (.condBroadcast _) => true
  | .simulation (.setScheduler _ _) | .simulation (.runSimulation _)
  | .simulation .firstResponse | .simulation (.busyWait _) => true
  | _ => false

end Act

/-- The kernel with the acts each thread still has to go through. -/
structure Machine where
  kernel : Kernel
  acts : ThreadId → List Act

/-- `g_current`. -/
abbrev Machine.current (m : Machine) : ThreadId := m.kernel.sched.gCurrent

/-- What the next call of `mem_alloc` or `mem_alloc_frame` finds: there is memory, or
`malloc` returns null, or the free list is empty. -/
inductive Memory
  | available | noHeap | noFrame
  deriving DecidableEq, Repr

/-- What can happen next. -/
inductive Event
  /-- The current thread calls a function of the kernel. -/
  | call (a : Act)
  /-- It goes through its next act. -/
  | resume (memory : Memory)
  /-- The timer interrupts it. -/
  | timer
  /-- The keyboard interrupts it, with a key code for the buffer or with none: for a byte of a
  modifier key, an unknown byte, or no byte at all. -/
  | keyboard (keycode : Option Keycode)
  deriving DecidableEq, Repr

end GeekOS
