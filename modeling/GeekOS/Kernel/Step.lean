import GeekOS.Library.Run
import GeekOS.Kernel.State

/-!
# The steps of the kernel

`Act.run` is what one act does: it returns the acts that the thread has to go through next and
the new state. `exec` carries out one event, `Step` is the step relation, and `boot` the machine
when `geekos_main` has initialised it: thread 0 runs `geekos_main`, thread 1 is the idle thread
and thread 2 the workqueue thread.
-/

namespace GeekOS

open Result

/-- The outcome of an act: what the thread does next, and the state. -/
abbrev Outcome := Except Fault (List Act × Kernel)

namespace Kernel

variable (k : Kernel)

/-- `g_current`. -/
abbrev current : ThreadId := k.sched.gCurrent

/-- An operation of the thread module, followed by `acts`. -/
def atomically (operation : Sched → Except Fault Sched) (acts : List Act) : Outcome := do
  let sched ← operation k.sched
  pure (acts, { k with sched })

/-- Sleep in a queue and go on with `again`. -/
def sleep (queue : WaitQueue) (again : Act) : Outcome := k.atomically (threadWait queue) [again]

/-- `mem_alloc`. -/
def memAlloc (memory : Memory) (again : Act) (allocated : Outcome) : Outcome :=
  match memory with
  | .noHeap => k.sleep .heap again
  | .available | .noFrame => allocated

/-- `mem_alloc_frame`. -/
def memAllocFrame (memory : Memory) (again : Act) (allocated : Outcome) : Outcome :=
  match memory with
  | .noFrame => k.sleep .frame again
  | .available | .noHeap => allocated

/-- An allocation of `thread_create` or `thread_create_from_job`, which goes on with the next one or,
behind the last one, with `allocated`. -/
def memAllocThread (memory : Memory) (again : Allocation → Act) (allocated : Act) :
    Allocation → Outcome
  | .thread _ =>
      k.memAlloc memory (again (.thread true)) (pure ([again (.stack false)], k))
  | .stack _ =>
      k.memAllocFrame memory (again (.stack true)) (pure ([again (.process false)], k))
  | .process _ =>
      k.memAlloc memory (again (.process true)) (pure ([allocated], k))

/-- `thread_create_from_job`, which goes on with the acts `made` of the new thread. -/
def createFromJob (memory : Memory) (job : Job) (mode : ThreadMode) (again : JobCreation → Act)
    (made : ThreadId → List Act) : JobCreation → Outcome
  | .alloc a => k.memAllocThread memory (fun a => again (.alloc a)) (again .pid) a
  | .pid =>
      let (pid, sched) := genPid k.sched
      pure ([again (.priority pid)], { k with sched })
  | .priority pid =>
      pure ([again (.makeNew pid (jobPriority k.sched.gScheduler job))], k)
  | .makeNew pid priority => do
      let (t, sched) ← threadCreateFromJob { pid, priority } mode k.sched
      pure (made t, { k with sched })

/-- `thread_detach`, and what its caller does before `workqueue_schedule_work` starts. -/
def detach (thread : ThreadId) : Outcome := do
  let (destroy, sched) ← threadDetach thread k.sched
  if destroy then
    pure ([.work (.schedule (.threadDestroy thread) false false)],
      { k with sched, scheduled := k.scheduled ++ [thread] })
  else pure ([], { k with sched })

/-- `MUTEX_IS_HELD`. -/
def mutexIsHeld (m : MutexId) : Prop :=
  (k.mutex m).state = .locked ∧ (k.mutex m).owner = some k.current

instance (m : MutexId) : Decidable (k.mutexIsHeld m) :=
  inferInstanceAs (Decidable (_ ∧ _))

/-- Store `g_preemption`. -/
def setPreemption (b : Bool) : Kernel := { k with sched := { k.sched with gPreemption := b } }

/-- Store `mutex->state`. -/
def setState (m : MutexId) (state : MutexState) : Kernel :=
  { k with mutex := Function.update k.mutex m { k.mutex m with state } }

/-- Store `mutex->owner`. -/
def setOwner (m : MutexId) (owner : Option ThreadId) : Kernel :=
  { k with mutex := Function.update k.mutex m { k.mutex m with owner } }

/-- History: the thread has the mutex in its own code. -/
def hold (m : MutexId) : Kernel :=
  { k with holders := Function.update k.holders m (k.current :: k.holders m) }

/-- History: the thread gives the mutex up. -/
def unhold (m : MutexId) : Kernel :=
  { k with holders := Function.update k.holders m ((k.holders m).filter (· ≠ k.current)) }

/-- History: a thread that was woken has found the mutex locked or has taken it. -/
def unwake (m : MutexId) : Kernel :=
  { k with woken := Function.update k.woken m ((k.woken m).filter (· ≠ k.current)) }

end Kernel

/-- `thread.c`. -/
def ThreadAct.run (memory : Memory) (k : Kernel) : ThreadAct → Outcome
  | .idle => k.atomically threadYield [.thread .idle]
  | .create mode a =>
      k.memAllocThread memory (fun a => .thread (.create mode a)) (.thread (.createArrival mode)) a
  | .createArrival mode => pure ([.thread (.createRun mode (arrivalTime k.sched))], k)
  | .createRun mode arrival => do
      let (t, sched) ← threadCreate mode arrival k.sched
      pure ([.thread (.createGenPid t)], { k with sched })
  | .createGenPid t =>
      let (pid, sched) := genPid k.sched
      pure ([.thread (.createPid t pid)], { k with sched })
  | .createPid t pid => k.atomically (threadCreatePid t pid) [.thread (.createPriority t)]
  | .createPriority t => k.atomically (threadCreatePriority t) []
  | .createFromJob job mode c =>
      k.createFromJob memory job mode (fun c => .thread (.createFromJob job mode c)) (fun _ => []) c
  | .merge => k.atomically mergeNewWithRunnable []
  | .yield => k.atomically threadYield []
  | .wait q => k.atomically (threadWait q) []
  | .wakeup q => k.atomically (threadWakeup q) []
  | .wakeupOne q => k.atomically (threadWakeupOne q) []
  | .exit exitcode => do
      -- the exit code is stored behind `thread_detach`, which may sleep before that
      let k : Kernel := { k with exitArg := Function.update k.exitArg k.current (some exitcode) }
      let (acts, k) ← k.detach k.current
      pure (acts ++ [.thread (.exitFinish exitcode)], k)
  | .exitFinish exitcode => k.atomically (threadExitFinish exitcode) []
  | .join child caller => do
      let th ← k.sched.deref child
      kassert (th.parent = some k.current) .parent
      pure ([.thread (.joinTest child caller)], k)
  | .joinTest child caller => do
      let exited ← threadNotRunning child k.sched
      if exited then
        let th ← k.sched.deref child
        match caller with
        | .threadJoin =>
            -- the parent gives up its reference, which may be the last one
            let (acts, k) ← k.detach child
            pure (acts ++ [.thread (.joinReturn child th.exitcode)],
              { k with joined := child :: k.joined })
        | .waitForChildren =>
            -- the statistics of the child are read before its reference is given up
            let _ ← k.sched.derefProcess child
            let (acts, k) ← k.detach child
            pure (acts, { k with joined := child :: k.joined })
      else k.sleep (.thread child) (.thread (.joinTest child caller))
  | .joinReturn child exitcode =>
      pure ([], { k with returned := (child, exitcode) :: k.returned })
  | .waitForChildren threads =>
      match threads with
      | [] => pure ([], k)
      | child :: rest =>
          k.atomically threadYield
            [.thread (.join child .waitForChildren), .thread (.waitForChildren rest)]

/-- What `item->callback(item->data)` goes through. -/
def WorkItem.callback : WorkItem → WorkAct
  | .threadDestroy t => .destroyProcess t
  | .ramdiskHandleRequest r => .ramdiskHandleRequest r

/-- `workqueue.c`, `thread_destroy` and the end of `ramdisk_handle_request`. -/
def WorkAct.run (memory : Memory) (k : Kernel) : WorkAct → Outcome
  | .schedule item iflag _ =>
      k.memAlloc memory (.work (.schedule item iflag true)) (pure ([.work (.link item iflag)], k))
  | .link item _ =>
      let k : Kernel := { k with workqueue := k.workqueue ++ [item] }
      k.atomically (threadWakeupOne .work) []
  | .loop _ =>
      match k.workqueue with
      | [] => k.sleep .work (.work (.loop true))
      | item :: rest =>
          pure ([.work item.callback, .work .freeItem, .work (.loop false)],
            { k with workqueue := rest })
  | .destroyProcess t => k.atomically (threadDestroyProcess t) [.work (.destroyStack t)]
  | .destroyStack t => k.atomically (threadDestroyStack t) [.work (.destroyThread t)]
  | .destroyThread t => k.atomically (threadDestroyThread t) []
  | .ramdiskHandleRequest r => k.atomically (threadWakeup (.request r)) []
  | .freeItem => k.atomically (threadWakeup .heap) []

/-- `keyboard.c`. -/
def KeyboardAct.run (k : Kernel) : KeyboardAct → Outcome
  | .readKey => pure ([], { k with keyQueue := k.keyQueue.tail })
  | .waitForKey _ =>
      match k.keyQueue with
      | [] => k.sleep .work (.keyboard (.waitForKey true))
      | _ :: rest => pure ([], { k with keyQueue := rest })

/-- What follows `mutex_unlock_imp` in its caller. -/
def SynchCaller.afterUnlock (m : MutexId) : SynchCaller → Act
  | .mutex => .synch .unlockReturn
  | .cond c => .synch (.condPark c m)

/-- `synch.c`. -/
def SynchAct.run (k : Kernel) : SynchAct → Outcome
  | .mutexLock m => pure ([.synch (.lockImp m .mutex)], k.setPreemption false)
  | .lockImp m caller => do
      kassert (k.sched.gPreemption = false) .preemption
      kassert (¬k.mutexIsHeld m) .mutexFree
      pure ([.synch (.lockTest m caller)], k)
  | .lockTest m caller =>
      -- the condition of the loop, which a thread comes back to whenever it has been woken
      if (k.mutex m).state = .locked then pure ([.synch (.lockPark m caller)], k.unwake m)
      else pure ([.synch (.lockState m caller)], k)
  | .lockPark m caller => k.atomically (threadPark (.mutex m)) [.synch (.lockParked m caller)]
  | .lockParked m caller => pure ([.synch (.lockTest m caller)], k.setPreemption false)
  | .lockState m caller =>
      pure ([.synch (.lockOwner m caller)], (k.setState m .locked).unwake m)
  | .lockOwner m caller =>
      pure ([.synch (.lockReturn m caller)], k.setOwner m (some k.current))
  | .lockReturn m _ => pure ([], (k.setPreemption true).hold m)
  | .mutexUnlock m => pure ([.synch (.unlockImp m .mutex)], (k.setPreemption false).unhold m)
  | .unlockImp m caller => do
      kassert (k.sched.gPreemption = false) .preemption
      kassert (k.mutexIsHeld m) .mutexHeld
      pure ([.synch (.unlockState m caller)], k)
  | .unlockState m caller => pure ([.synch (.unlockOwner m caller)], k.setState m .unlocked)
  | .unlockOwner m caller => pure ([.synch (.unlockTest m caller)], k.setOwner m none)
  | .unlockTest m caller =>
      if k.sched.queue (.wait (.mutex m)) = [] then pure ([caller.afterUnlock m], k)
      else pure ([.synch (.unlockWake m caller)], k)
  | .unlockWake m caller =>
      -- the thread that `thread_wakeup_one` is going to take off the queue
      let first := (k.sched.queue (.wait (.mutex m))).take 1
      let k : Kernel := { k with woken := Function.update k.woken m (first ++ k.woken m) }
      k.atomically (threadWakeupOne (.mutex m)) [caller.afterUnlock m]
  | .unlockReturn => pure ([], k.setPreemption true)
  | .condWait c m => do
      kassert (k.mutexIsHeld m) .mutexHeld
      pure ([.synch (.unlockImp m (.cond c))], (k.setPreemption false).unhold m)
  | .condPark c m => k.atomically (threadPark (.cond c)) [.synch (.condParked c m)]
  | .condParked c m => pure ([.synch (.lockImp m (.cond c))], k.setPreemption false)
  | .condSignal c => k.atomically (threadWakeupOne (.cond c)) []
  | .condBroadcast c => k.atomically (threadWakeup (.cond c)) []

/-- `simulation.c`, `long_term_scheduler` and the menu, `first_response` and `busy_wait`. -/
def SimulationAct.run (memory : Memory) (k : Kernel) : SimulationAct → Outcome
  | .setScheduler g quantum =>
      pure ([], { k with sched := { k.sched with gScheduler := g, gQuantum := quantum } })
  | .runSimulation simulation =>
      pure ([.simulation (.longTermScheduler simulation [] .start), .simulation .simulationEnd],
        { k with keybMasked := true })
  | .longTermScheduler joblist threads c =>
      match joblist with
      | [] => pure ([.thread .merge, .thread (.waitForChildren threads)], k)
      | job :: rest =>
          k.createFromJob memory job .attached
            (fun c => .simulation (.longTermScheduler joblist threads c))
            (fun t => [.simulation (.longTermScheduler rest (threads ++ [t]) .start)]) c
  | .simulationEnd => pure ([], { k with keybMasked := false })
  | .firstResponse => k.atomically GeekOS.firstResponse []
  | .busyWait ticks => pure ([.simulation (.busyWaiting k.sched.gNumticks ticks)], k)
  | .busyWaiting last ticks =>
      -- `last + ticks` is a sum of two `u32_t`
      if k.sched.gNumticks < (last + ticks) % 2 ^ 32 then
        pure ([.simulation (.busyWaiting last ticks)], k)
      else pure ([], k)

/-- What one act does: the acts that follow in its place, and the new state. -/
def Act.run (memory : Memory) (k : Kernel) : Act → Outcome
  | .thread a => a.run memory k
  | .work a => a.run memory k
  | .keyboard a => a.run k
  | .synch a => a.run k
  | .simulation a => a.run memory k

/-- `keyboard_int_handler`, which has a key code for the buffer or none. -/
def keyboardIntHandler (keycode : Option Keycode) (k : Kernel) : Except Fault Kernel :=
  match keycode with
  | none => pure k
  | some keycode => do
      -- a key that comes while the buffer is full is dropped
      let keyQueue :=
        if k.keyQueue.length + 1 < queueSize then k.keyQueue ++ [keycode] else k.keyQueue
      let sched ← threadWakeup .work k.sched
      pure { k with keyQueue, sched := { sched with gNeedReschedule := true } }

namespace Machine

variable (m : Machine)

/-- Carry out an event. -/
def exec : Event → Except Fault Machine
  | .call a => pure { m with acts := Function.update m.acts m.current [a] }
  | .resume memory =>
      match m.acts m.current with
      | [] => pure m
      | a :: rest => do
          let (acts, kernel) ← a.run memory m.kernel
          pure { kernel, acts := Function.update m.acts m.current (acts ++ rest) }
  | .timer => do
      let sched ← timerProcessTick m.kernel.sched
      -- the interrupt returns to the thread that was interrupted, or to the next one
      let sched ← intHandleReturn sched
      pure { m with kernel := { m.kernel with sched } }
  | .keyboard keycode => do
      let kernel ← keyboardIntHandler keycode m.kernel
      let sched ← intHandleReturn kernel.sched
      pure { m with kernel := { kernel with sched } }

/-- Interrupts are enabled. -/
def intEnabled : Bool :=
  match m.acts m.current with
  | [] => true
  | a :: _ => a.interruptible

/-- The event can come now. -/
def Enabled : Event → Prop
  | .call a => m.acts m.current = [] ∧ a.isCall
  | .resume _ => m.acts m.current ≠ []
  | .timer => m.intEnabled
  | .keyboard _ => m.intEnabled ∧ m.kernel.keybMasked = false

instance (e : Event) : Decidable (m.Enabled e) := by
  cases e <;> unfold Enabled <;> infer_instance

/-- One step of the kernel. -/
def Step (m : Machine) (e : Event) (m' : Machine) : Prop :=
  m.Enabled e ∧ m.exec e = .ok m'

end Machine

/-! ## The start -/

/-- The state in `thread_init` before the idle thread is made. -/
def mainSched : Sched where
  threads t := if t = 0 then some
    { process := { priority := defaultPriority, time := { arrival := 1 } }, state := .running,
      refcount := 1 } else none
  nextThread := 1
  gCurrent := 0
  queue _ := []
  gScheduler := .fcfs
  gPreemption := false
  gNeedReschedule := false
  gNumticks := 0
  gQuantum := 0
  pid := 1
  gNumThreads := 1
  freed := []
  clock := 0
  stamp _ := 0
  dispatched := []

/-- `thread_create` in one go, as `geekos_main` runs it while interrupts are still disabled. -/
def threadCreateAtomic (mode : ThreadMode) (s : Sched) : Except Fault Sched := do
  let (t, s) ← threadCreate mode (arrivalTime s) s
  let (pid, s) := genPid s
  let s ← threadCreatePid t pid s
  threadCreatePriority t s

/-- The end of `thread_init`, `workqueue_init` and the store of `timer_init`. -/
def initSched : Except Fault Sched := do
  let s ← threadCreateAtomic .detached mainSched
  let s ← threadCreateAtomic .detached s
  pure { s with gPreemption := true }

/-- The thread of `geekos_main`, the idle thread and the workqueue thread. -/
def mainThread : ThreadId := 0
@[inherit_doc mainThread] def idleThread : ThreadId := 1
@[inherit_doc mainThread] def workqueueThread : ThreadId := 2

/-- The state when the initialisation is over. -/
def bootSched : Sched :=
  match initSched with
  | .ok s => s
  | .error _ => mainSched

/-- The machine when the initialisation is over. -/
def boot : Machine where
  kernel :=
    { sched := bootSched
      mutex := fun _ => {}
      workqueue := []
      keyQueue := []
      keybMasked := false
      exitArg := fun _ => none
      scheduled := []
      joined := []
      returned := []
      holders := fun _ => []
      woken := fun _ => [] }
  acts t :=
    if t = idleThread then [.thread .idle]
    else if t = workqueueThread then [.work (.loop false)]
    else []

end GeekOS
