import Mathlib.Algebra.Group.Nat.Defs
import GeekOS.Thread.Scheduler

/-!
# The operations of the thread module

The functions of `thread.c`, `first_response` of `stat.c`, the tick and interrupt-return paths that
act on threads, and the memory functions through which `thread_destroy` wakes sleepers. Each runs
with interrupts disabled from its start to its end or to the context switch in its end. A function
with a point at which another thread may run is cut there: `threadCreate` ends where
`thread_create` has made the new thread runnable, and `threadCreatePid` and `threadCreatePriority`
are the stores behind it.
-/

namespace GeekOS

open Result

/-- The successor of a `u32_t` counter. -/
def u32Succ (n : ℕ) : ℕ := (n + 1) % 2 ^ 32

/-! ## Queues -/

/-- `thread_queue_append`. -/
def threadQueueAppend (q : QueueId) (node : ThreadId) (s : Sched) : Sched :=
  s.enqueue q (s.queue q ++ [node]) node

/-- `thread_queue_remove_first`. -/
def threadQueueRemoveFirst (q : QueueId) (s : Sched) : Except Fault (ThreadId × Sched) :=
  match s.queue q with
  | [] => .error (.assertion (.listHead q))
  | head :: rest => .ok (head, s.setQueue q rest)

/-- `SCHEDULER[g_scheduler](q, thread)`. -/
def scheduleInto (q : QueueId) (thread : ThreadId) (s : Sched) : Sched :=
  s.enqueue q (scheduler s.priority s.gScheduler (s.queue q) thread) thread

/-- The accesses of `narrator(thread->process->pid, message)`. -/
def narrator (thread : ThreadId) (s : Sched) : Except Fault Unit := do
  let _ ← s.derefProcess thread

/-! ## Scheduling -/

/-- `thread_make_runnable`. -/
def threadMakeRunnable (thread : ThreadId) (s : Sched) : Except Fault Sched := do
  let th ← s.deref thread
  let s := s.setThread thread { th with state := .ready }
  narrator thread s
  pure (scheduleInto .runqueue thread s)

/-- `thread_next_runnable`. -/
def threadNextRunnable (s : Sched) : Except Fault (ThreadId × Sched) := do
  let (next, s) ← threadQueueRemoveFirst .runqueue s
  let th ← s.deref next
  let s := s.setThread next { th with state := .running }
  narrator next s
  pure (next, { s with dispatched := s.dispatched ++ [next] })

/-- `thread_switch_to`: the stack pointer is saved in the record of the current thread. -/
def threadSwitchTo (thread : ThreadId) (s : Sched) : Except Fault Sched := do
  let _ ← s.deref s.gCurrent
  pure { s with gCurrent := thread }

/-- `thread_schedule`. -/
def threadSchedule (s : Sched) : Except Fault Sched := do
  let (next, s) ← threadNextRunnable s
  threadSwitchTo next s

/-- `thread_relinquish_cpu`. -/
def threadRelinquishCpu (s : Sched) : Except Fault Sched := do
  let th ← s.deref s.gCurrent
  kassert (th.state = .running) .stateRunning
  pure (s.setThread s.gCurrent { th with numTicks := 0 })

/-- `thread_yield`. -/
def threadYield (s : Sched) : Except Fault Sched := do
  let s ← threadRelinquishCpu s
  let s ← threadMakeRunnable s.gCurrent s
  threadSchedule s

/-- `thread_wait`. The state of the thread stays as it is. -/
def threadWait (queue : WaitQueue) (s : Sched) : Except Fault Sched := do
  narrator s.gCurrent s
  let s ← threadRelinquishCpu s
  threadSchedule (threadQueueAppend (.wait queue) s.gCurrent s)

/-- `thread_park` up to the return of its `thread_wait`, behind which preemption is disabled and
interrupts are enabled again. -/
def threadPark (queue : WaitQueue) (s : Sched) : Except Fault Sched := do
  kassert (s.gPreemption = false) .preemption
  threadWait queue { s with gPreemption := true }

/-- `thread_wakeup_one`. -/
def threadWakeupOne (queue : WaitQueue) (s : Sched) : Except Fault Sched := do
  let (thread, s) ← threadQueueRemoveFirst (.wait queue) s
  threadMakeRunnable thread s

/-- `thread_wakeup`. -/
def threadWakeup (queue : WaitQueue) (s : Sched) : Except Fault Sched :=
  loop (fun s => !(s.queue (.wait queue)).isEmpty) (threadWakeupOne queue)
    (s.queue (.wait queue)).length s

/-! ## Creation -/

/-- `gen_pid`. -/
def genPid (s : Sched) : ℕ × Sched :=
  (s.pid, { s with gNumThreads := s.pid + 1, pid := s.pid + 1 })

/-- A record filled with zeroes, with the references that `thread_create` and
`thread_create_from_job` give it. -/
def newThread (mode : ThreadMode) (process : Process) (s : Sched) : Thread :=
  match mode with
  | .attached => { process, parent := some s.gCurrent, refcount := 2 }
  | .detached => { process, refcount := 1 }

/-- `mem_alloc(sizeof(struct thread))` and the stores into the new record. -/
def allocThread (th : Thread) (s : Sched) : ThreadId × Sched :=
  (s.nextThread, { s with nextThread := s.nextThread + 1 }.setThread s.nextThread th)

/-- The arrival time that `thread_create` stores. It is never 0, not even before the first tick. -/
def arrivalTime (s : Sched) : ℕ := if s.gNumticks > 0 then s.gNumticks else 1

/-- The rest of `thread_create` up to the end of `thread_make_runnable`. The process still has the
zeroes of `mem_alloc` as its pid and its priority. -/
def threadCreate (mode : ThreadMode) (arrival : ℕ) (s : Sched) :
    Except Fault (ThreadId × Sched) := do
  let (thread, s) := allocThread (newThread mode { time := { arrival } } s) s
  let s ← threadMakeRunnable thread s
  pure (thread, s)

/-- A store into `*thread->process` behind `thread_make_runnable`. An interrupt may have let the
new thread run by then. -/
def storeProcess (thread : ThreadId) (store : Process → Process) (s : Sched) :
    Except Fault Sched := do
  let p ← s.derefProcess thread
  let th ← s.deref thread
  pure (s.setThread thread { th with process := store p })

/-- The store of `thread->process->pid` in `thread_create`. -/
def threadCreatePid (thread : ThreadId) (pid : ℕ) : Sched → Except Fault Sched :=
  storeProcess thread fun p => { p with pid }

/-- The store of `thread->process->priority` in `thread_create`. -/
def threadCreatePriority (thread : ThreadId) : Sched → Except Fault Sched :=
  storeProcess thread fun p => { p with priority := defaultPriority }

/-- The priority of a job: its estimated burst time under SJF. -/
def jobPriority (g : SchedulerKind) (newJob : Job) : ℤ :=
  match g with
  | .sjf => newJob.cpuBurst
  | .priority => newJob.priority
  | .fcfs | .rr => defaultPriority

/-- `thread_make_new`. -/
def threadMakeNew (thread : ThreadId) (s : Sched) : Except Fault Sched := do
  let p ← s.derefProcess thread
  let th ← s.deref thread
  let time := { p.time with arrival := s.gNumticks }
  let s := s.setThread thread { th with state := .new, process := { p with time } }
  pure (scheduleInto .newqueue thread s)

/-- The end of `thread_create_from_job`, with the process as it has been filled in. -/
def threadCreateFromJob (process : Process) (mode : ThreadMode) (s : Sched) :
    Except Fault (ThreadId × Sched) := do
  let (thread, s) := allocThread (newThread mode process s) s
  let s ← threadMakeNew thread s
  pure (thread, s)

/-- The body of the loop of `merge_new_with_runnable`. -/
def mergeOne (s : Sched) : Except Fault Sched := do
  let (thread, s) ← threadQueueRemoveFirst .newqueue s
  narrator thread s
  let th ← s.deref thread
  let s := s.setThread thread { th with state := .ready }
  pure (scheduleInto .runqueue thread s)

/-- `merge_new_with_runnable`. -/
def mergeNewWithRunnable (s : Sched) : Except Fault Sched := do
  let s ← loop (fun s => !(s.queue .newqueue).isEmpty) mergeOne (s.queue .newqueue).length s
  -- `thread_queue_clear` follows the assertion
  kassert (s.queue .newqueue = []) .newqueueEmpty
  pure (s.setQueue .newqueue [])

/-- `first_response`. Its message is about the process of the current thread. -/
def firstResponse (s : Sched) : Except Fault Sched := do
  let p ← s.derefProcess s.gCurrent
  let th ← s.deref s.gCurrent
  let time := { p.time with firstResponse := s.gNumticks }
  pure (s.setThread s.gCurrent { th with process := { p with time } })

/-! ## End of life -/

/-- `thread_detach` up to its call of `workqueue_schedule_work`, which it makes if the result is
`true`. -/
def threadDetach (thread : ThreadId) (s : Sched) : Except Fault (Bool × Sched) := do
  let th ← s.deref thread
  kassert (0 < th.refcount) .refcount
  let s := s.setThread thread { th with refcount := th.refcount - 1 }
  if th.refcount - 1 = 0 then
    -- the message about the thread, before its destruction is scheduled
    let _ ← s.derefProcess thread
    pure (true, s)
  else pure (false, s)

/-- `thread_exit` behind its call of `thread_detach`. -/
def threadExitFinish (exitcode : ℤ) (s : Sched) : Except Fault Sched := do
  let thread := s.gCurrent
  let th ← s.deref thread
  let p ← s.derefProcess thread
  let time := { p.time with termination := s.gNumticks }
  let s := s.setThread thread { th with exitcode, state := .exited, process := { p with time } }
  -- only a parent with a reference can be waiting
  if th.refcount > 0 then
    let s ← threadWakeup (.thread thread) s
    threadSchedule s
  else threadSchedule s

/-- `thread_not_running`. -/
def threadNotRunning (thread : ThreadId) (s : Sched) : Except Fault Bool := do
  let th ← s.deref thread
  kassert (0 < th.refcount) .refcount
  kassert (th.parent = some s.gCurrent) .parent
  pure (th.state = .exited ∨ th.state = .killed)

/-- `mem_free`: whoever waits for memory is woken. -/
def memFree (p : Object) (s : Sched) : Except Fault Sched := threadWakeup .heap (s.free p)

/-- `mem_free_frame`. -/
def memFreeFrame (frame : Object) (s : Sched) : Except Fault Sched :=
  threadWakeup .frame (s.free frame)

/-- `thread_destroy` up to its first `mem_free`. -/
def threadDestroyProcess (thread : ThreadId) (s : Sched) : Except Fault Sched := do
  let th ← s.deref thread
  kassert (th.state = .exited ∨ th.state = .killed) .destroyed
  memFree (.process thread) s

/-- The `mem_free_frame` of `thread_destroy`. -/
def threadDestroyStack (thread : ThreadId) (s : Sched) : Except Fault Sched := do
  let _ ← s.deref thread
  memFreeFrame (.stack thread) s

/-- The last `mem_free` of `thread_destroy`. -/
def threadDestroyThread (thread : ThreadId) (s : Sched) : Except Fault Sched :=
  memFree (.thread thread) s

/-! ## Interrupts -/

/-- `RR_scheduler`. -/
def rrScheduler (s : Sched) : Except Fault Sched := do
  let th ← s.deref s.gCurrent
  pure (if th.numTicks > s.gQuantum then { s with gNeedReschedule := true } else s)

/-- `timer_process_tick`. -/
def timerProcessTick (s : Sched) : Except Fault Sched := do
  let s : Sched := { s with gNumticks := u32Succ s.gNumticks }
  let th ← s.deref s.gCurrent
  let p ← s.derefProcess s.gCurrent
  let time := { p.time with running := u32Succ p.time.running }
  let s := s.setThread s.gCurrent
    { th with numTicks := u32Succ th.numTicks, process := { p with time } }
  if s.gScheduler = .rr then rrScheduler s else pure s

/-- The end of `int_handle_interrupt`, behind the call of the handler. -/
def intHandleReturn (s : Sched) : Except Fault Sched :=
  if s.gPreemption = false then pure s
  else if s.gNeedReschedule = false then pure s
  else do
    -- the interrupted thread goes back on the run queue, and the stack of the next one is taken
    let s := { s with gNeedReschedule := false }
    let s ← threadRelinquishCpu s
    let s ← threadMakeRunnable s.gCurrent s
    let (next, s) ← threadNextRunnable s
    pure { s with gCurrent := next }

end GeekOS
